import MailExpert.AccessSync.Runner
import MailExpert.Lib.Agents
import MailExpert.Lib.TransitionSystem

/-!
# Who an address lets in

The administrators' actions on users (`services/admin/users.js`), the sign-in of a verified address (`resolveVerifiedUser`) and
its import from the Access policy, as transactions under READ COMMITTED. A statement sees what was committed before it; what a
transaction writes is seen when it commits. Until then it holds its advisory locks and the row it locked or wrote, and the unique
indexes make others wait for it. Emails are stored lower-cased, so a comparison of `lower(email)` is one of the email.

`approved`, `removed`, `shed` and `last` are history: what an administrator last did about an address.
-/

namespace MailExpert.Addresses

open AccessSync (User UserTable normalizeEmail)

abbrev UserId := Nat

structure Settings where
  bootstrapAdminEmails : List String := []
  googleMode : Bool := true

/-- What the administrators' last action on an address made of it. -/
inductive Last
  | approved
  | removed
  deriving DecidableEq

structure Db where
  users : UserTable
  tombstones : Finset String
  policyEmails : List String := []
  last : String → Option Last := fun _ => none

/-- `patch`, with its email normalized: not given, cleared, or an address. -/
structure Patch where
  isAdmin : Option Bool := none
  disabled : Option Bool := none
  email : Option (Option String) := none

inductive Op
  | createUser (email : String)
  | allowEmail (email : String)
  | updateUser (id : UserId) (patch : Patch)
  | deleteUser (id : UserId)
  | resolveVerifiedUser (address : String) (cloudflare : Bool)
  | importUser (email : String)

inductive Pc
  /-- The read of `resolveVerifiedUser` before its transaction. -/
  | known
  /-- `lockRowAddresses`: its read, and the locks still to take. -/
  | named
  | lock (todo : List String) (named : Option User)
  | guard (named : Option User)
  /-- `lockTargetUser` -/
  | target (named : Option User)
  -- `updateUser`, of the row that it locked
  | taken (current : User)
  | clear (current : User)
  | add (current : User)
  | update (current : User)
  -- `deleteUser`
  | delete (current : User) (named : Option User)
  | bury (current : User) (named : Option User)
  -- under the lock of the address of the action
  | allow
  | tombstoned
  | find (fromAccess : Bool)
  | claim (fromAccess : Bool)
  | claimRow (fromAccess : Bool) (id : UserId)
  | insert (fromAccess : Bool)
  /-- What the action does with the user of the address, and whether it was created or claimed. -/
  | settle (fromAccess : Bool) (id : UserId) (user : User) (arrived : Bool)
  | commit

/-- A transaction, with what it holds and what it has written. -/
structure Tx where
  op : Op
  pc : Pc
  locks : List String := []
  guard : Bool := false
  row : Option UserId := none
  /-- What its row will be; a row that it deleted will be none. -/
  write : Option (Option User) := none
  clear : Option String := none
  add : Option String := none
  /-- History: the address that its administrator approves, the email that a user loses, and the username, an address, of a user
  without an email who goes. -/
  approved : Option String := none
  removed : Option String := none
  shed : Option String := none

namespace Tx

/-- The email that an unfinished write enters into the index. -/
def email (t : Tx) : Option String := t.write.join.bind (·.email)

def username (t : Tx) : Option String := t.write.join.map (·.username)

/-- The tombstones that it has written. -/
def buries (t : Tx) (a : String) : Bool := t.clear = some a || t.add = some a

/-- The users once it has committed. -/
def users (t : Tx) (users : UserTable) : UserTable :=
  match t.row, t.write with
  | some id, some (some user) => users.insert id user
  | some id, some none => users.erase id
  | _, _ => users

/-- The username of a user without an email may be the email of another: the address is removed when it is not. -/
def commit (t : Tx) (db : Db) : Db where
  users := t.users db.users
  tombstones := (db.tombstones.filter fun a => t.clear ≠ some a) ∪ t.add.toFinset
  policyEmails := db.policyEmails
  last a :=
    if t.approved = some a then some .approved
    else if t.removed = some a then some .removed
    else if t.shed = some a then
      if (t.users db.users).select (fun _ user => user.email = some a) = [] then some .removed else none
    else db.last a

end Tx

def countsAsActiveAdmin (user : User) (googleMode : Bool) : Bool :=
  user.is_admin && !user.disabled && (!googleMode || user.email.isSome)

def otherActiveAdminExists (users : UserTable) (id : UserId) (googleMode : Bool) : Bool :=
  (users.select fun k user => user.is_admin && !user.disabled && k ≠ id && (!googleMode || user.email.isSome)) ≠ []

section

variable (toLowerCase : String → String) (settings : Settings)

/-- `addressOf` -/
def addressOf (user : User) : Option String := user.email <|> normalizeEmail toLowerCase user.username

/-- `isBootstrapEmail` -/
def isBootstrapEmail (email : Option String) : Bool := email.any settings.bootstrapAdminEmails.contains

def findUserByEmail (users : UserTable) (email : String) : Option (UserId × User) :=
  users.find? fun _ user => user.email = some email

/-- The row that the sub-select of `claimOrCreateUserByEmail` finds. -/
def legacy (users : UserTable) (email : String) : Option UserId :=
  ((users.select fun _ user => user.email = none && toLowerCase user.username = email).argmin fun row => row.2.created_at).map
    Prod.fst

/-- The administrators' actions on a user leave no install without an administrator, and the bootstrap ones alone. -/
def refused (db : Db) (id : UserId) (current after : User) : Bool :=
  isBootstrapEmail settings current.email && (!after.is_admin || after.disabled || after.email ≠ current.email) ||
    countsAsActiveAdmin current settings.googleMode && !countsAsActiveAdmin after settings.googleMode &&
      !otherActiveAdminExists db.users id settings.googleMode

/-- `after` -/
def Patch.after (patch : Patch) (current : User) : User :=
  { current with
    is_admin := patch.isAdmin.getD current.is_admin
    disabled := patch.disabled.getD current.disabled
    email := patch.email.getD current.email }

def Patch.emailChanged (patch : Patch) (current : User) : Bool := patch.email.isSome && (patch.after current).email ≠ current.email

/-- `lockRowAddresses`, the addresses in order -/
def addresses (named : Option User) (extra : List String) : List String :=
  ((named.bind (addressOf toLowerCase)).toList ++ extra).dedup.insertionSort (· ≤ ·)

def Op.begin : Op → Tx
  | .createUser email => { op := .createUser email, pc := .lock [email] none }
  | .allowEmail email => { op := .allowEmail email, pc := .lock [email] none }
  | .updateUser id patch => { op := .updateUser id patch, pc := if patch.email.isSome then .named else .guard none }
  | .deleteUser id => { op := .deleteUser id, pc := .named }
  | .resolveVerifiedUser address cloudflare => { op := .resolveVerifiedUser address cloudflare, pc := .known }
  | .importUser email => { op := .importUser email, pc := .lock [email] none }

/-- What comes after the advisory locks. A sign-in that is not `fromAccess` takes its lock in `claimOrCreateUserByEmail`, and so
does `createUser`. -/
def Op.locked (op : Op) (named : Option User) : Pc :=
  match op with
  | .createUser _ => .find false
  | .allowEmail _ => .allow
  | .updateUser _ _ | .deleteUser _ => .guard named
  | .resolveVerifiedUser address _ => if settings.bootstrapAdminEmails.contains address then .find false else .tombstoned
  | .importUser _ => .tombstoned

/-- The address that `claimOrCreateUserByEmail` is called with. -/
def Op.address : Op → Option String
  | .createUser email | .allowEmail email | .resolveVerifiedUser email _ | .importUser email => some email
  | .updateUser _ _ | .deleteUser _ => none

/-- What a statement meets: the id of a row that it inserts. -/
inductive Pick
  | next
  | id (id : UserId)
  /-- An error rolls back. -/
  | error

/-- A statement of a transaction, beside the others that are open: what it becomes, and none when it is over. A statement that has
to wait does not run. -/
def Tx.run (db : Db) (others : List Tx) (t : Tx) : Pick → Option (Option Tx)
  | .error => some none
  | .id id =>
    match t.pc, t.op.address with
    | .insert fromAccess, some email =>
      let isAdmin := match t.op with
        | .resolveVerifiedUser address _ => settings.bootstrapAdminEmails.contains address
        | _ => false
      let user : User := { username := email, email := some email, is_admin := isAdmin }
      if (db.users.lookup id).isSome || others.any (fun o => o.row = some id) then none
      else if others.any fun o => o.email = some email || o.username = some email then none
      else if db.users.select (fun _ user => user.username = email || user.email = some email) ≠ [] then some none
      else some (some { t with row := some id, write := some (some user), pc := .settle fromAccess id user true })
    | _, _ => none
  | .next =>
    match t.pc with
    | .known =>
      match t.op with
      | .resolveVerifiedUser address cloudflare =>
        let bootstrap := settings.bootstrapAdminEmails.contains address
        some (match findUserByEmail db.users address with
          | some (_, user) =>
            if user.disabled || !bootstrap || user.is_admin then none else some { t with pc := .lock [address] none }
          | none => if !cloudflare && !bootstrap then none else some { t with pc := .lock [address] none })
      | _ => none
    | .named =>
      match t.op with
      | .updateUser id patch =>
        let named := db.users.lookup id
        some (some { t with pc := .lock (addresses toLowerCase named (patch.email.join).toList) named })
      | .deleteUser id =>
        let named := db.users.lookup id
        some (some { t with pc := .lock (addresses toLowerCase named []) named })
      | _ => none
    | .lock [] named => some (some { t with pc := t.op.locked settings named })
    | .lock (a :: todo) named =>
      if others.any fun o => o.locks.contains a then none
      else some (some { t with locks := a :: t.locks, pc := .lock todo named })
    | .guard named =>
      if others.any (·.guard) then none else some (some { t with guard := true, pc := .target named })
    | .target named =>
      match t.op with
      | .updateUser id patch =>
        if others.any fun o => o.row = some id then none
        else match db.users.lookup id with
          | none => some none
          | some current =>
            if refused settings db id current (patch.after current) then some none
            else some (some { t with row := some id, pc := .taken current })
      | .deleteUser id =>
        if others.any fun o => o.row = some id then none
        else match db.users.lookup id with
          | none => some none
          | some current =>
            if isBootstrapEmail settings current.email || (countsAsActiveAdmin current settings.googleMode &&
                !otherActiveAdminExists db.users id settings.googleMode) then some none
            else some (some { t with row := some id, pc := .delete current named })
      | _ => none
    | .taken current =>
      match t.op with
      | .updateUser id patch =>
        match patch.email.join with
        | some email =>
          if email ≠ current.email ∧ db.users.select (fun k user => user.email = some email && k ≠ id) ≠ [] then some none
          else some (some { t with pc := .clear current })
        | none => some (some { t with pc := .clear current })
      | _ => none
    | .clear current =>
      match t.op with
      | .updateUser _ patch =>
        match patch.email.join with
        | some email =>
          if !patch.emailChanged current then some (some { t with pc := .add current })
          else if email ∈ db.tombstones ∧ others.any (·.buries email) then none
          else some (some { t with clear := if email ∈ db.tombstones then some email else none, approved := some email, pc := .add current })
        | none => some (some { t with pc := .add current })
      | _ => none
    | .add current =>
      match t.op with
      | .updateUser _ patch =>
        match current.email with
        | some email =>
          if !patch.emailChanged current then some (some { t with pc := .update current })
          else if others.any (·.buries email) then none
          else some (some { t with add := some email, removed := some email, pc := .update current })
        | none => some (some { t with pc := .update current })
      | _ => none
    | .update current =>
      match t.op with
      | .updateUser id patch =>
        let user := { patch.after current with access_source := if patch.emailChanged current then none else current.access_source }
        if user.email.any fun email => others.any fun o => o.email = some email then none
        else if user.email.any fun email => db.users.select (fun k row => row.email = some email && k ≠ id) ≠ [] then some none
        else some (some { t with write := some (some user), pc := .commit })
      | _ => none
    | .delete current named => some (some { t with
        write := some none
        removed := current.email
        shed := if current.email.isNone then addressOf toLowerCase current else none
        pc := .bury current named })
    | .bury current named =>
      match current.email <|> named.bind (addressOf toLowerCase) with
      | some email => if others.any (·.buries email) then none else some (some { t with add := some email, pc := .commit })
      | none => some (some { t with pc := .commit })
    | .allow =>
      match t.op with
      | .allowEmail email =>
        if email ∈ db.tombstones ∧ others.any (·.buries email) then none
        else some (some { t with clear := if email ∈ db.tombstones then some email else none, approved := some email, pc := .find false })
      | _ => none
    | .tombstoned =>
      match t.op.address with
      | some email => some (if email ∈ db.tombstones then none else some { t with pc := .find true })
      | none => none
    | .find fromAccess =>
      match t.op.address with
      | some email => some (some { t with pc := match findUserByEmail db.users email with
          | some (id, user) => .settle fromAccess id user false
          | none => .claim fromAccess })
      | none => none
    | .claim fromAccess =>
      match t.op.address with
      | some email => some (some { t with pc := match legacy toLowerCase db.users email with
          | some id => .claimRow fromAccess id
          | none => .insert fromAccess })
      | none => none
    | .claimRow fromAccess id =>
      match t.op.address with
      | some email =>
        if others.any fun o => o.row = some id then none
        else match db.users.lookup id with
          -- the row is gone: the statement updates none
          | none => some (some { t with pc := .insert fromAccess })
          | some user =>
            if others.any fun o => o.email = some email then none
            else if db.users.select (fun k row => row.email = some email && k ≠ id) ≠ [] then some none
            else
              let user := { user with email := some email }
              some (some { t with row := some id, write := some (some user), pc := .settle fromAccess id user true })
      | none => none
    | .settle fromAccess id user arrived =>
      match t.op with
      | .createUser email =>
        if !arrived then some none
        else if email ∈ db.tombstones ∧ others.any (·.buries email) then none
        else some (some { t with clear := if email ∈ db.tombstones then some email else none, approved := some email, pc := .commit })
      | .allowEmail _ =>
        if arrived || !(user.disabled || user.access_source.isSome) then some (some { t with pc := .commit })
        else if others.any fun o => o.row = some id then none
        else some ((db.users.lookup id).map fun user =>
          { t with row := some id, write := some (some { user with disabled := false, access_source := none }), pc := .commit })
      | .resolveVerifiedUser address _ =>
        -- the answer is an error, and the transaction commits
        if user.disabled then some (some { t with pc := .commit })
        else if fromAccess && arrived && !db.policyEmails.contains address then
          some (some { t with write := some (some { user with access_source := some AccessSync.ACCESS_LOGIN_SOURCE }), pc := .commit })
        else if settings.bootstrapAdminEmails.contains address && !user.is_admin then
          if arrived then some (some { t with write := some (some { user with is_admin := true }), pc := .commit })
          else if others.any fun o => o.row = some id then none
          else some ((db.users.lookup id).map fun user =>
            { t with row := some id, write := some (some { user with is_admin := true }), pc := .commit })
        else some (some { t with pc := .commit })
      | .importUser _ => some (some { t with pc := .commit })
      | _ => none
    | _ => none

structure State where
  db : Db
  txs : List (Option Tx)

inductive Label
  | start (op : Op)
  /-- A run of the Access sync stores what the policy lists. -/
  | policy (emails : List String)
  | run (i : Nat) (pick : Pick)
  | commit (i : Nat)

def State.others (s : State) (i : Nat) : List Tx := (s.txs.set i none).reduceOption

def step (s : State) : Label → Option State
  | .start op => some { s with txs := s.txs ++ [some op.begin] }
  | .policy emails => some { s with db := { s.db with policyEmails := emails } }
  | .run i pick => do
    let t ← (s.txs[i]?).join
    let t' ← t.run toLowerCase settings s.db (s.others i) pick
    some { s with txs := s.txs.set i t' }
  | .commit i =>
    match (s.txs[i]?).join with
    | some t =>
      match t.pc with
      | .commit => some { db := t.commit s.db, txs := s.txs.set i none }
      | _ => none
    | none => none

/-- The emails are those of one user each, and no transaction is open. -/
structure Initial (s : State) : Prop where
  unique {id id' : UserId} {user user' : User} {email : String} : s.db.users.lookup id = some user →
    s.db.users.lookup id' = some user' → user.email = some email → user'.email = some email → id = id'
  last : ∀ a, s.db.last a = none
  txs : s.txs = []

def system : TransitionSystem State Label where
  init := Initial
  step := step toLowerCase settings

end

end MailExpert.Addresses
