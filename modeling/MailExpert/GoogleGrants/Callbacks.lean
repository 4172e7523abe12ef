import MailExpert.Lib.Agents
import MailExpert.Lib.TransitionSystem

/-!
# Google callbacks and revokes

The grants that Google issued, the mailboxes that hold their tokens, and what moves them: callbacks of `routes/oauthGoogle.js` that add or
reconnect a mailbox, the revokes of consents that were refused and of tokens whose app a mailbox left, and removals
(`routes/accounts.js`, `services/accounts/deleteAccount.js`). A label is one SQL statement or transaction, or one call to Google; a revoke
ends every grant of its address in its project so far, and an app is one project (`project_number UNIQUE`).

A grant stands for its tokens, the access token and, when the exchange returned one, the refresh token. A callback may also break off where
its statements can throw.
-/

namespace MailExpert.GoogleGrants

abbrev Address := String

structure Grant where
  address : Address
  app : Nat
  ended : Bool := false
  deriving DecidableEq

/-- A row of `email_accounts`: what it holds of Google. -/
structure Mailbox where
  id : Nat
  address : Address
  /-- `oauth_provider = 'google'` -/
  google : Bool
  app : Option Nat
  subject : Option Nat
  access : Option Nat
  refresh : Option Nat
  reconnectRequired : Bool
  deriving DecidableEq

/-- How a flow was started. -/
inductive Mode
  | add
  | reconnect (accountId : Nat)
  deriving DecidableEq

/-- What the exchange of the code and the id token gave. -/
structure Issued where
  grant : Nat
  address : Address
  sub : Nat
  hasRefresh : Bool
  mailScope : Bool
  deriving DecidableEq

inductive CallbackStage
  | started
  | issued (tokens : Issued)
  /-- Refused after Google issued tokens. -/
  | refused (tokens : Issued)
  /-- `revokeRefusedGrant` found no mailbox of the address on the app. -/
  | revoking (tokens : Issued)
  | finished
  deriving DecidableEq

structure Callback where
  mode : Mode
  email : Address
  app : Nat
  stage : CallbackStage
  deriving DecidableEq

inductive RemovalStage
  /-- The row was read, with the grant whose token is to be revoked. -/
  | read (grant : Option Nat)
  /-- The revoke was awaited. -/
  | revoked
  | finished
  deriving DecidableEq

structure Removal where
  accountId : Nat
  stage : RemovalStage
  deriving DecidableEq

structure State where
  grants : List Grant
  /-- In the order of `created_at`. -/
  mailboxes : List Mailbox
  /-- The ids given out. -/
  ids : Nat
  callbacks : List Callback := []
  removals : List Removal := []
  /-- The revokes of tokens whose app the mailbox left; nobody waits for them. -/
  leaving : List Nat := []
  deriving DecidableEq

namespace State

variable (s : State)

/-- Google revokes: every grant of the address in the project ends. -/
def revoke (grant : Nat) : State :=
  match s.grants[grant]? with
  | none => s
  | some g => { s with grants := s.grants.map fun other => if other.address = g.address ∧ other.app = g.app then { other with ended := true } else other }

def setCallback (i : Nat) (c : Callback) : State := { s with callbacks := s.callbacks.set i c }
def setRemoval (i : Nat) (r : Removal) : State := { s with removals := s.removals.set i r }

/-- `SELECT … WHERE lower(btrim(email_address)) = … ORDER BY created_at LIMIT 1` -/
def existing (address : Address) : Option Mailbox := s.mailboxes.find? fun m => m.address = address

/-- What `saveGoogleAccount` refuses of the row it finds. -/
def refuses (c : Callback) (tokens : Issued) (row : Option Mailbox) : Bool :=
  match c.mode, row with
  | .add, some _ => true
  | .add, none => !tokens.hasRefresh
  | .reconnect _, none => true
  | .reconnect accountId, some m =>
    m.id ≠ accountId || !m.google || m.subject.any (· ≠ tokens.sub) ||
      (!tokens.hasRefresh && !(m.refresh.isSome && m.app = some c.app && !m.reconnectRequired))

/-- The consent is accepted: it is of the address asked for, with access to mail, and the row found is no reason to refuse it. -/
def accepts (c : Callback) (tokens : Issued) : Bool :=
  tokens.address = c.email && tokens.mailScope && !refuses c tokens (s.existing tokens.address)

/-- The row that a reconnect writes. -/
def rewritten (c : Callback) (tokens : Issued) (m : Mailbox) : Mailbox :=
  { m with
    google := true
    app := some c.app
    subject := some tokens.sub
    access := some tokens.grant
    refresh := if tokens.hasRefresh then some tokens.grant else m.refresh
    reconnectRequired := false }

/-- The revoke that follows a move to another app. -/
def leavingOf (c : Callback) (m : Mailbox) : List Nat := if m.app.isSome ∧ m.app ≠ some c.app then m.refresh.toList else []

/-- The transaction of `saveGoogleAccount`, when it refuses nothing. -/
def saved (c : Callback) (tokens : Issued) : State :=
  match s.existing tokens.address with
  | none =>
    { s with
      ids := s.ids + 1
      mailboxes := s.mailboxes ++
        [{ id := s.ids, address := tokens.address, google := true, app := some c.app, subject := some tokens.sub, access := some tokens.grant,
           refresh := if tokens.hasRefresh then some tokens.grant else none, reconnectRequired := false }] }
  | some m =>
    { s with
      mailboxes := s.mailboxes.map fun other => if other.id = m.id then rewritten c tokens other else other
      leaving := s.leaving ++ leavingOf c m }

end State

inductive Label
  /-- A flow comes back from Google with a code. -/
  | callback (mode : Mode) (email : Address) (app : Nat)
  /-- Google exchanges the code. -/
  | exchange (callback : Nat) (address : Address) (sub : Nat) (hasRefresh mailScope : Bool)
  /-- The callback breaks off: a statement failed, or the app is disabled. -/
  | breakOff (callback : Nat)
  | save (callback : Nat)
  /-- `revokeRefusedGrant` looks for a mailbox of the address on the app. -/
  | lookUp (callback : Nat)
  | revokeRefused (callback : Nat) (ok : Bool)
  /-- The revoke of a token whose app the mailbox left. -/
  | revokeLeft (revoke : Nat) (ok : Bool)
  /-- `DELETE /api/accounts/:id` reads the row. -/
  | remove (accountId : Nat)
  | revokeRemoved (removal : Nat) (ok : Bool)
  | delete (removal : Nat)
  /-- `markReconnectRequired`: Google refused the mailbox's token. -/
  | markReconnect (accountId : Nat)

def Callback.step (s : State) (i : Nat) (c : Callback) : Label → Option State
  | .exchange _ address sub hasRefresh mailScope =>
    if c.stage = .started then
      some ({ s with grants := s.grants ++ [({ address, app := c.app } : Grant)] }.setCallback i
        { c with stage := .issued ⟨s.grants.length, address, sub, hasRefresh, mailScope⟩ })
    else none
  | .breakOff _ =>
    match c.stage with
    | .started => some (s.setCallback i { c with stage := .finished })
    | .issued tokens => some (s.setCallback i { c with stage := .refused tokens })
    | _ => none
  | .save _ =>
    match c.stage with
    | .issued tokens =>
      if s.accepts c tokens then some ((s.saved c tokens).setCallback i { c with stage := .finished })
      else some (s.setCallback i { c with stage := .refused tokens })
    | _ => none
  | .lookUp _ =>
    match c.stage with
    | .refused tokens =>
      let found := s.mailboxes.any fun m => m.address = tokens.address && m.app = some c.app
      some (s.setCallback i { c with stage := if found then .finished else .revoking tokens })
    | _ => none
  | .revokeRefused _ ok =>
    match c.stage with
    | .revoking tokens => some ((if ok then s.revoke tokens.grant else s).setCallback i { c with stage := .finished })
    | _ => none
  | _ => none

def Removal.step (s : State) (i : Nat) (r : Removal) : Label → Option State
  | .revokeRemoved _ ok =>
    match r.stage with
    | .read (some grant) => some ((if ok then s.revoke grant else s).setRemoval i { r with stage := .revoked })
    | .read none => some (s.setRemoval i { r with stage := .revoked })
    | _ => none
  | .delete _ =>
    if r.stage = .revoked then
      some ({ s with mailboxes := s.mailboxes.filter fun m => m.id ≠ r.accountId }.setRemoval i { r with stage := .finished })
    else none
  | _ => none

def step (s : State) : Label → Option State
  | .callback mode email app => some { s with callbacks := s.callbacks ++ [⟨mode, email, app, .started⟩] }
  | .exchange i address sub hasRefresh mailScope => s.callbacks[i]?.bind fun c => c.step s i (.exchange i address sub hasRefresh mailScope)
  | .breakOff i => s.callbacks[i]?.bind fun c => c.step s i (.breakOff i)
  | .save i => s.callbacks[i]?.bind fun c => c.step s i (.save i)
  | .lookUp i => s.callbacks[i]?.bind fun c => c.step s i (.lookUp i)
  | .revokeRefused i ok => s.callbacks[i]?.bind fun c => c.step s i (.revokeRefused i ok)
  | .revokeLeft i ok => s.leaving[i]?.map fun grant => { if ok then s.revoke grant else s with leaving := s.leaving.eraseIdx i }
  | .remove accountId =>
    (s.mailboxes.find? fun m => m.id = accountId).map fun m =>
      { s with removals := s.removals ++ [⟨accountId, .read (if m.google then m.refresh.or m.access else none)⟩] }
  | .revokeRemoved i ok => s.removals[i]?.bind fun r => r.step s i (.revokeRemoved i ok)
  | .delete i => s.removals[i]?.bind fun r => r.step s i (.delete i)
  | .markReconnect accountId =>
    some { s with mailboxes := s.mailboxes.map fun m => if m.id = accountId then { m with reconnectRequired := true } else m }

/-- A mailbox that Google's tokens are alive for: its refresh token is of a grant of its own address on its own app, which has not ended. -/
def Mailbox.Works (grants : List Grant) (m : Mailbox) : Prop :=
  ∀ grant, m.refresh = some grant → ∃ g, grants[grant]? = some g ∧ g.address = m.address ∧ m.app = some g.app ∧ g.ended = false

/-- Mailboxes that were connected before, each with an id of its own. -/
def system : TransitionSystem State Label where
  init s := s.callbacks = [] ∧ s.removals = [] ∧ s.leaving = [] ∧ (s.mailboxes.map Mailbox.id).Nodup ∧ (∀ m ∈ s.mailboxes, m.id < s.ids) ∧
    ∀ m ∈ s.mailboxes, m.reconnectRequired = false → m.Works s.grants
  step := step

end MailExpert.GoogleGrants
