import MailExpert.Lib.Table
import MailExpert.AccessSync.Reconcile

/-!
# A run of the Access sync

`runAccessSync` with the statements it makes on the users: `claimOrCreateUserByEmail` for the emails it
imports and `disableUsersByEmail` for those removed in Cloudflare. The run is in google mode with a
complete configuration that nothing changes meanwhile, and Cloudflare stores the policy it is sent.
-/

namespace MailExpert.AccessSync

structure User where
  username : String
  email : Option String := none
  is_admin : Bool := false
  disabled : Bool := false
  access_source : Option String := none
  created_at : Nat := 0
deriving DecidableEq, Repr

abbrev UserTable := Table Nat User

def ACCESS_LOGIN_SOURCE : String := "login"

def freshId (users : UserTable) : Nat := users.keys.foldr max 0 + 1

/-- `countsAsActiveAdmin` in google mode. -/
def countsAsActiveAdmin (user : User) : Bool := user.is_admin && !user.disabled && user.email.any (· ≠ "")

def otherActiveAdminExists (users : UserTable) (id : Nat) : Bool :=
  (users.select fun k user => user.is_admin && !user.disabled && k ≠ id && user.email.isSome) ≠ []

section Users

variable (toLowerCase : String → String)

def User.has (user : User) (email : String) : Bool := user.email.map toLowerCase = some email

def User.login (user : User) : Bool := user.access_source = some ACCESS_LOGIN_SOURCE

def emailsWhere (users : UserTable) (p : User → Bool) : List String :=
  (users.select fun _ user => p user).filterMap fun row => row.2.email.map toLowerCase

def findUserByEmail (users : UserTable) (email : String) : Option (Nat × User) :=
  users.find? fun _ user => user.has toLowerCase email

/-- The users, the user of the email, and whether it was created or claimed just now. -/
def claimOrCreateUserByEmail (users : UserTable) (email : String) :
    Except String (UserTable × User × Bool) :=
  match findUserByEmail toLowerCase users email with
  | some (_, user) => .ok (users, user, false)
  | none =>
    let legacy := users.select fun _ user => user.email = none && toLowerCase user.username = email
    match legacy.argmin fun row => row.2.created_at with
    | some (id, user) =>
      let claimed := { user with email := some email }
      .ok (users.modify id fun _ => claimed, claimed, true)
    | none =>
      if (users.select fun _ user => user.username = email) ≠ [] then .error "username_taken"
      else
        let user : User := { username := email, email := some email }
        .ok (users.insert (freshId users) user, user, true)

structure Imported where
  users : UserTable
  imported : List String := []
  errors : Nat := 0

def importUser (tombstones : List String) (done : Imported) (email : String) : Imported :=
  if email ∈ tombstones then done
  else match claimOrCreateUserByEmail toLowerCase done.users email with
    | .error _ => { done with errors := done.errors + 1 }
    | .ok (users, user, arrived) =>
      { done with
        users
        imported := if arrived && !user.disabled then done.imported ++ user.email.toList else done.imported }

def importUsers (users : UserTable) (tombstones emails : List String) : Imported :=
  emails.foldl (importUser toLowerCase tombstones) { users }

structure Disabled where
  users : UserTable
  disabled : List String := []

def disableUser (bootstrapAdminEmails : List String) (done : Disabled) (email : String) : Disabled :=
  if email ∈ bootstrapAdminEmails then done
  else match done.users.find? fun _ user => user.has toLowerCase email && !user.disabled with
    | none => done
    | some (id, user) =>
      if countsAsActiveAdmin user && !otherActiveAdminExists done.users id then done
      else
        { users := done.users.modify id fun _ => { user with disabled := true }
          disabled := done.disabled ++ user.email.toList }

def disableUsersByEmail (users : UserTable) (emails bootstrapAdminEmails : List String) : Disabled :=
  emails.foldl (disableUser toLowerCase bootstrapAdminEmails) { users }

def adoptUsers (users : UserTable) (adopt : List String) : UserTable :=
  users.update (fun _ user => user.email.any (toLowerCase · ∈ adopt) && user.login) fun _ user =>
    { user with access_source := none }

end Users

/-! ## The run -/

structure SyncState where
  baseline : List String := []
  policyEmails : List String := []
  abortedCandidates : Option (List String) := none
  abortedImports : Option (List String) := none
deriving DecidableEq, Repr

structure Settings where
  bootstrapAdminEmails : List String := []
  maxDisables : Nat := 10
  maxImports : Nat := 10
deriving DecidableEq, Repr

/-- The policy at Cloudflare, the users, the tombstones and the state between runs. -/
structure World where
  policy : Policy
  users : UserTable
  tombstones : List String := []
  state : SyncState := {}

inductive Outcome
  | failed (error : String) | aborted | empty | updated | unchanged
deriving DecidableEq, Repr

/-- `lastRun`. Its `errors` are those of the import and the emails that are no addresses. -/
structure Run where
  outcome : Outcome
  added : Nat := 0
  removed : Nat := 0
  imported : Nat := 0
  disabled : Nat := 0
  wouldDisable : Nat := 0
  wouldImport : Nat := 0
  importErrors : Nat := 0
  errors : Nat := 0
deriving DecidableEq, Repr

section Run

variable (toLowerCase : String → String) (settings : Settings)

def World.activeEmails (w : World) : List String := emailsWhere toLowerCase w.users (!·.disabled)

/-- Users that a domain or group rule admitted at sign-in. -/
def World.byRule (w : World) : List String :=
  emailsWhere toLowerCase w.users fun user => !user.disabled && user.login

def World.adopt (w : World) : List String :=
  (w.byRule toLowerCase).filter (· ∈ listedEmails toLowerCase w.policy.includes)

/-- Those of them that the policy does not list. -/
def World.unpinned (w : World) : List String :=
  (w.byRule toLowerCase).filter (· ∉ listedEmails toLowerCase w.policy.includes)

def World.proposed (w : World) : List String :=
  importCandidates toLowerCase w.policy w.state.baseline settings.bootstrapAdminEmails

def World.invalid (w : World) : List String :=
  (w.proposed toLowerCase settings).filter fun email => normalizeEmail toLowerCase email ≠ some email

def World.toImport (w : World) : List String :=
  (w.proposed toLowerCase settings).filter fun email => normalizeEmail toLowerCase email = some email &&
    email ∉ emailsWhere toLowerCase w.users (fun _ => true) && email ∉ w.tombstones

def World.candidates (w : World) : List String :=
  removedInCloudflare toLowerCase w.policy w.state.baseline (w.activeEmails toLowerCase)
    settings.bootstrapAdminEmails

def World.disablesStopped (w : World) : Bool :=
  exceedsDisableLimit (w.candidates toLowerCase settings).length (w.activeEmails toLowerCase).length
    settings.maxDisables

def World.importsStopped (w : World) : Bool :=
  exceedsImportLimit (w.toImport toLowerCase settings).length settings.maxImports

def World.imports (w : World) : Imported :=
  importUsers toLowerCase w.users w.tombstones (w.toImport toLowerCase settings)

def World.disables (w : World) : Disabled :=
  disableUsersByEmail toLowerCase
    (adoptUsers toLowerCase (w.imports toLowerCase settings).users (w.adopt toLowerCase))
    (w.candidates toLowerCase settings) settings.bootstrapAdminEmails

def World.desired (w : World) : List String :=
  let turnedOff := (w.disables toLowerCase settings).disabled.map toLowerCase
  sorted (((w.activeEmails toLowerCase).filter fun email =>
      email ∉ turnedOff && email ∉ w.unpinned toLowerCase) ++
    (w.imports toLowerCase settings).imported.map toLowerCase ++ settings.bootstrapAdminEmails)

def World.built (w : World) : Built :=
  buildInclude toLowerCase w.policy w.state.baseline (w.desired toLowerCase settings)

def runAccessSync (w : World) : World × Run :=
  if w.policy.decision ≠ "allow" then (w, { outcome := .failed "policy_not_allow" })
  else if w.disablesStopped toLowerCase settings || w.importsStopped toLowerCase settings then
    let candidates := w.candidates toLowerCase settings
    let toImport := w.toImport toLowerCase settings
    ({ w with state := { w.state with
        abortedCandidates := if w.disablesStopped toLowerCase settings then some candidates else none
        abortedImports := if w.importsStopped toLowerCase settings then some toImport else none } },
      { outcome := .aborted
        wouldDisable := if w.disablesStopped toLowerCase settings then candidates.length else 0
        wouldImport := if w.importsStopped toLowerCase settings then toImport.length else 0 })
  else
    let imports := w.imports toLowerCase settings
    let disables := w.disables toLowerCase settings
    let desired := w.desired toLowerCase settings
    let built := w.built toLowerCase settings
    let run : Run := {
      outcome := .empty, imported := imports.imported.length, disabled := disables.disabled.length
      importErrors := imports.errors
      errors := imports.errors + (w.invalid toLowerCase settings).length }
    if built.includes = [] then
      ({ w with
        users := disables.users
        state := { w.state with
          policyEmails := listedEmails toLowerCase w.policy.includes
          abortedCandidates := none, abortedImports := none } }, run)
    else
      ({ w with
        policy := if built.changed then { w.policy with includes := built.includes } else w.policy
        users := disables.users
        state := {
          baseline := desired, policyEmails := listedEmails toLowerCase built.includes
          abortedCandidates := none, abortedImports := none } },
        { run with
          outcome := if built.changed then .updated else .unchanged
          added := built.added.length, removed := built.removed.length })

end Run

end MailExpert.AccessSync
