import MailExpert.Addresses.Approved

/-!
# The actions that can take an administrator away

The transactions of `Addresses.Transactions` beside those of `disableUsersByEmail` (`services/auth/userStatus.js`), with
`lockTargetUser` and `otherActiveAdminExists` as the two statements that they are.
-/

namespace MailExpert.Administrators

open AccessSync (User UserTable)
open Addresses

/-- The statement that it waits for. -/
inductive DisablePc
  | lockAdminGuard
  /-- The select of the next email. -/
  | next
  /-- `otherActiveAdminExists`, of the row it locked -/
  | count (email : String) (id : UserId)
  | disable (id : UserId)
  deriving DecidableEq

structure Disabling where
  todo : List String
  pc : DisablePc := .lockAdminGuard
  guard : Bool := false
  /-- The rows that it locked, and those of them that it disabled. -/
  rows : List UserId := []
  disabled : List UserId := []
  keptLastAdmin : List String := []

/-- The users as its own statements see them, and once it has committed. -/
def Disabling.users (d : Disabling) (users : UserTable) : UserTable :=
  users.update (fun id _ => d.disabled.contains id) fun _ user => { user with disabled := true }

/-- Its locks, as the statements of the others meet them. The emails it writes are those that the rows have. -/
def Disabling.held (d : Disabling) : List Tx :=
  { op := .deleteUser 0, pc := .commit, guard := d.guard } ::
    d.rows.map fun id => { op := .deleteUser id, pc := .commit, row := some id }

section

variable (toLowerCase : String → String) (settings : Settings)

def Disabling.run (db : Db) (others : List Tx) (d : Disabling) : Option Disabling :=
  match d.pc with
  | .lockAdminGuard => if others.any (·.guard) then none else some { d with guard := true, pc := .next }
  | .next =>
    match d.todo with
    | [] => none
    | email :: todo =>
      if settings.bootstrapAdminEmails.contains email then some { d with todo }
      else match (d.users db.users).find? fun _ user => user.has toLowerCase email && !user.disabled with
        | none => some { d with todo }
        | some (id, current) =>
          if others.any fun o => o.row = some id then none
          else some { d with
            todo
            rows := id :: d.rows
            pc := if countsAsActiveAdmin current settings.googleMode then .count email id else .disable id }
  | .count email id =>
    if otherActiveAdminExists (d.users db.users) id settings.googleMode then some { d with pc := .disable id }
    else some { d with keptLastAdmin := d.keptLastAdmin ++ [email], pc := .next }
  | .disable id => some { d with disabled := id :: d.disabled, pc := .next }

/-! ## `updateUser` and `deleteUser` -/

/-- `after`, and none for a user that is deleted -/
def after (op : Op) (current : User) : Option User :=
  match op with
  | .updateUser _ patch => some (patch.after current)
  | _ => none

/-- `bootstrap_admin` -/
def bootstrapAdmin (op : Op) (current : User) : Bool :=
  isBootstrapEmail settings current.email &&
    (after op current).all fun user => !user.is_admin || user.disabled || user.email ≠ current.email

/-- The user is an active administrator, and would not be one any more. -/
def takesAway (op : Op) (current : User) : Bool :=
  countsAsActiveAdmin current settings.googleMode && !(after op current).any fun user => countsAsActiveAdmin user settings.googleMode

/-- The transaction once its checks under the lock of the row are made. -/
def checked (t : Tx) (id : UserId) (named : Option User) (current : User) : Tx :=
  { t with row := some id, pc := if (after t.op current).isSome then .taken current else .delete current named }

inductive Action
  | panel (t : Tx)
  /-- It waits for `otherActiveAdminExists`, and goes on as `t` when there is one. -/
  | checking (t : Tx) (id : UserId)
  | disabling (d : Disabling)
  | committed
  /-- Refused, failed, or over without a transaction. -/
  | rolledBack

namespace Action

/-- The open transactions, as the statements of the others meet them. -/
def held : Action → List Tx
  | .panel t | .checking t _ => [t]
  | .disabling d => d.held
  | .committed | .rolledBack => []

def ofTx : Option Tx → Action
  | some t => .panel t
  | none => .rolledBack

/-- `lockTargetUser`, and what is decided on the row it finds -/
def lockTargetUser (db : Db) (others : List Tx) (t : Tx) (id : UserId) (named : Option User) : Option Action :=
  if others.any fun o => o.row = some id then none
  else match db.users.lookup id with
    | none => some .rolledBack
    | some current =>
      if bootstrapAdmin settings t.op current then some .rolledBack
      else if takesAway settings t.op current then some (.checking (checked t id named current) id)
      else some (.panel (checked t id named current))

/-- A statement of an action, beside the open transactions of the others. -/
def run (db : Db) (others : List Tx) (pick : Pick) : Action → Option Action
  | .panel t =>
    match t.pc, t.op.target, pick with
    | .target named, some id, .next => lockTargetUser settings db others t id named
    | _, _, _ => (t.run toLowerCase settings db others pick).map ofTx
  | .checking t id =>
    match pick with
    | .next => some (if otherActiveAdminExists db.users id settings.googleMode then .panel t else .rolledBack)
    | .id _ => none
    | .error => some .rolledBack
  | .disabling d =>
    match pick with
    | .next => (d.run toLowerCase settings db others).map .disabling
    | .id _ => none
    | .error => some .rolledBack
  | .committed | .rolledBack => none

/-- With no other statement in between, the two are the one step of `Addresses.Transactions`. -/
theorem lockTargetUser_then_check {db : Db} {others : List Tx} {t : Tx} {id : UserId} {named : Option User}
    (hpc : t.pc = .target named) (hop : t.op.target = some id) :
    ((lockTargetUser settings db others t id named).bind fun action =>
        match action with
        | .checking _ _ => action.run toLowerCase settings db others .next
        | action => some action) =
      (t.run toLowerCase settings db others .next).map ofTx := by
  obtain ⟨op, pc, locks, guard, row, write, clear, add, approved, removed, shed⟩ := t
  obtain rfl : pc = .target named := hpc
  cases op with
  | updateUser id' patch =>
    obtain rfl := Option.some.inj hop
    simp only [lockTargetUser, Tx.run]
    split
    · rfl
    cases db.users.lookup id' with
    | none => rfl
    | some current =>
      have hrefused : refused settings db id' current (patch.after current) =
          (bootstrapAdmin settings (.updateUser id' patch) current || takesAway settings (.updateUser id' patch) current &&
            !otherActiveAdminExists db.users id' settings.googleMode) := rfl
      simp only [hrefused]
      cases bootstrapAdmin settings (.updateUser id' patch) current
      · cases takesAway settings (.updateUser id' patch) current
        · rfl
        · cases hother : otherActiveAdminExists db.users id' settings.googleMode <;>
            simp [Action.run, hother, ofTx, checked, after]
      · rfl
  | deleteUser id' =>
    obtain rfl := Option.some.inj hop
    simp only [lockTargetUser, Tx.run]
    split
    · rfl
    cases db.users.lookup id' with
    | none => rfl
    | some current =>
      have hboot : bootstrapAdmin settings (.deleteUser id') current = isBootstrapEmail settings current.email := Bool.and_true _
      have htakes : takesAway settings (.deleteUser id') current = countsAsActiveAdmin current settings.googleMode := Bool.and_true _
      simp only [hboot, htakes]
      cases isBootstrapEmail settings current.email
      · cases countsAsActiveAdmin current settings.googleMode
        · rfl
        · cases hother : otherActiveAdminExists db.users id' settings.googleMode <;>
            simp [Action.run, hother, ofTx, checked, after]
      · rfl
  | _ => cases hop

/-- What a transaction that is done leaves. -/
def commit (db : Db) : Action → Option Db
  | .panel t =>
    match t.pc with
    | .commit => some (t.commit db)
    | _ => none
  | .disabling d =>
    match d.pc, d.todo with
    | .next, [] => some { db with users := d.users db.users }
    | _, _ => none
  | _ => none

end Action

/-- `commits` is history: the states that were committed, the last one first, each with its action. -/
structure State where
  db : Db
  actions : List Action := []
  commits : List (Nat × Db) := []

inductive Label
  | start (op : Op)
  | startDisabling (emails : List String)
  /-- A run of the Access sync stores what the policy lists. -/
  | policy (emails : List String)
  | run (i : Nat) (pick : Pick)
  | commit (i : Nat)

def State.others (s : State) (i : Nat) : List Tx := (s.actions.set i .rolledBack).flatMap Action.held

def step (s : State) : Label → Option State
  | .start op => some { s with actions := s.actions ++ [.panel op.begin] }
  | .startDisabling emails => some { s with actions := s.actions ++ [.disabling { todo := emails }] }
  | .policy emails => some { s with db := { s.db with policyEmails := emails } }
  | .run i pick => do
    let action ← s.actions[i]?
    let action' ← action.run toLowerCase settings s.db (s.others i) pick
    some { s with actions := s.actions.set i action' }
  | .commit i => do
    let action ← s.actions[i]?
    let db ← action.commit s.db
    some { db, actions := s.actions.set i .committed, commits := (i, db) :: s.commits }

/-- An administrator who can sign in to the panel. -/
def ActiveAdmin (users : UserTable) : Prop :=
  ∃ id user, users.lookup id = some user ∧ countsAsActiveAdmin user settings.googleMode = true

/-- There is an active administrator, and no transaction is open. -/
structure Initial (s : State) : Prop where
  admin : ActiveAdmin settings s.db.users
  actions : s.actions = []
  commits : s.commits = []

def system : TransitionSystem State Label where
  init := Initial settings
  step := step toLowerCase settings

end

end MailExpert.Administrators
