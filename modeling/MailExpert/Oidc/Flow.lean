import MailExpert.AccessSync.Reconcile
import MailExpert.Lib.Agents
import MailExpert.Lib.Table
import MailExpert.Lib.TransitionSystem

/-!
# Single sign-on

`routes/oidc.js`: `GET /:slug/start`, `GET /:slug/callback` and `DELETE /identities/:id`. A request moves from one of its statements,
requests to the provider and session saves to the next.

A request reads its session when it comes in; what it changes is written over the fields stored then, in one step, and a session that
has ended stays ended. A sign-in ends the old session and gets a new session id. The state and the nonce of a flow are drawn together
and stand as one number. A token that verifies may hold any claims. What a sign-in changes in the user's row (`is_admin`,
`display_name`) is left out.
-/

namespace MailExpert.Oidc

open AccessSync (trim)

abbrev UserId := Nat
abbrev Sid := Nat
abbrev ProviderId := Nat
abbrev IdentityId := Nat
abbrev Code := String

inductive Action
  | login | link
  deriving DecidableEq

/-- `req.session.oidcPending` -/
structure Pending where
  state : Nat
  providerId : ProviderId
  action : Action
  linkUserId : Option UserId
  expiresAt : Nat
  deriving DecidableEq

def Pending.nonce (p : Pending) : Nat := p.state

structure Session where
  userId : Option UserId := none
  locked : Bool := false
  oidcPending : Option Pending := none

structure User where
  username : String
  disabled : Bool := false
  /-- `password_hash` is set. -/
  hasPassword : Bool := false

/-- `provisioning_mode` -/
inductive Mode
  | disabled | login_existing_only | open | other
  deriving DecidableEq

structure Provider where
  slug : String
  enabled : Bool := true
  provisioning_mode : Mode := .login_existing_only
  require_email_verified : Bool := true
  allowed_domains : Option String := none
  login_match_claim : String := "email"

structure Identity where
  user_id : UserId
  provider_id : ProviderId
  issuer : String
  subject : String

structure Payload where
  nonce : Nat
  iss : String
  sub : String
  email : Option String
  email_verified : Bool
  /-- Another claim, where it is text. -/
  claim : String → Option String := fun _ => none

def TEN_MINUTES : Nat := 10 * 60 * 1000

/-- A flow that a session started: its pending fields, the time, and the user who was signed in. -/
structure Started where
  sid : Sid
  pending : Pending
  time : Nat
  userId : Option UserId

/-- A callback whose checks passed, and when it came. -/
structure Callback where
  sid : Sid
  pending : Pending
  code : Code
  state : Nat
  time : Nat
  /-- The flow that the session had started last: history. -/
  last : Option Started

inductive Effect
  /-- A session was opened, for the row that was read. -/
  | opened (row : User)
  /-- An identity was linked, with what the session was then. -/
  | linked (session : Option Session)

/-- What a callback did: history. -/
structure Use where
  callback : Callback
  nonce : Nat
  user : UserId
  effect : Effect

/-- A start, with what its session was when it came. -/
structure Start where
  sid : Option Sid
  action : Action
  userId : Option UserId

def Start.pending (r : Start) (state : Nat) (id : ProviderId) (time : Nat) : Pending where
  state := state
  providerId := id
  action := r.action
  linkUserId := if r.action = .link then r.userId else none
  expiresAt := time + TEN_MINUTES

/-- A request, at the statement it waits for. -/
inductive Phase
  | done
  -- start
  | startProvider (r : Start) (slug : String)
  | startDiscover (r : Start) (id : ProviderId)
  | startSave (r : Start) (id : ProviderId) (time : Nat)
  -- callback
  | provider (c : Callback)
  | discover (c : Callback) (provider : Provider)
  | exchange (c : Callback) (provider : Provider)
  | link (c : Callback) (uid : UserId) (payload : Payload)
  | findIdentity (c : Callback) (provider : Provider) (payload : Payload)
  | findUser (c : Callback) (uid : UserId) (payload : Payload)
  | matchUser (c : Callback) (username : String) (payload : Payload)
  | provision (c : Callback) (username : String) (payload : Payload)
  | createUser (c : Callback) (username : String) (payload : Payload)
  | insertIdentity (c : Callback) (uid : UserId) (row : User) (payload : Payload)
  | regenerate (c : Callback) (uid : UserId) (row : User) (nonce : Nat)
  | save (c : Callback) (uid : UserId) (row : User) (nonce : Nat)
  /-- The end of a callback that cleared its flow. -/
  | finish (c : Callback)
  /-- The same, of a callback whose checks failed. -/
  | refuse (sid : Sid)
  -- unlink
  | unlink (uid : UserId) (id : IdentityId)
  | unlinkCount (uid : UserId) (id : IdentityId)
  /-- With the count, where it was read. -/
  | unlinkDelete (uid : UserId) (id : IdentityId) (count : Option Nat)

def Phase.callback : Phase → Option Callback
  | .provider c | .discover c _ | .exchange c _ | .link c _ _ | .findIdentity c _ _ | .findUser c _ _ | .matchUser c _ _
  | .provision c _ _ | .createUser c _ _ | .insertIdentity c _ _ _ | .regenerate c _ _ _ | .save c _ _ _ | .finish c => some c
  | _ => none

inductive Answer
  | next
  | failed
  /-- The provider accepted the code, and the token verified. -/
  | tokens (payload : Payload)

/-- `req.query` -/
structure Query where
  code : Option Code
  state : Option Nat
  error : Bool := false

structure World where
  now : Nat
  users : Table UserId User
  nextUser : UserId
  sessions : Table Sid Session
  nextSid : Sid
  providers : Table ProviderId Provider
  identities : Table IdentityId Identity
  nextIdentity : IdentityId
  nextState : Nat := 0
  /-- The codes that the provider accepted. -/
  spent : List Code := []
  started : List Started := []
  uses : List Use := []

section

variable (toLowerCase : String → String)

/-- `resolveLoginMatchValue` -/
def resolveLoginMatchValue (provider : Provider) (payload : Payload) (email : String) : Option String :=
  let claim := if trim provider.login_match_claim = "" then "email" else trim provider.login_match_claim
  if ["__proto__", "constructor", "prototype"].contains claim then none
  else
    let raw := if claim = "email" then some email else payload.claim claim
    (raw.filter (trim · ≠ "")).map fun raw => toLowerCase (trim raw)

def Provider.domains (provider : Provider) : List String :=
  match provider.allowed_domains with
  | none => []
  | some domains => ((domains.splitOn ",").map fun d => toLowerCase (trim d)).filter (· ≠ "")

/-- An email that a sign-in may rest on. -/
def Payload.emailFor (payload : Payload) (provider : Provider) : Option String :=
  if !payload.email_verified && provider.require_email_verified then none else payload.email.filter (· ≠ "")

def Payload.domainAllowed (payload : Payload) (provider : Provider) : Bool :=
  (provider.domains toLowerCase).isEmpty || (payload.emailFor provider).any fun email =>
    ((email.splitOn "@")[1]?).any fun d => (provider.domains toLowerCase).contains (toLowerCase d)

def Callback.verified (c : Callback) (provider : Provider) (payload : Payload) : Phase :=
  if payload.nonce ≠ c.pending.nonce then .finish c
  else if !payload.email_verified && c.pending.action ≠ .link && provider.require_email_verified then .finish c
  else if !payload.domainAllowed toLowerCase provider then .finish c
  else match c.pending.action with
    | .link => match c.pending.linkUserId with
      | none => .finish c
      | some uid => .link c uid payload
    | .login => .findIdentity c provider payload

/-- What a callback does with an identity that nobody has. -/
def Callback.provisioning (c : Callback) (provider : Provider) (payload : Payload) : Phase :=
  match provider.provisioning_mode with
  | .login_existing_only => match (payload.emailFor provider).bind (resolveLoginMatchValue toLowerCase provider payload) with
    | none => .finish c
    | some username => .matchUser c username payload
  | .open => match payload.emailFor provider with
    | none => .finish c
    | some email => .provision c (toLowerCase email) payload
  | _ => .finish c

namespace World

variable (w : World)

/-- `POST` or `GET` of a session: what `/start` checks at once -/
def start (sid : Option Sid) (action : Action) (slug : String) : Phase :=
  let session := (sid.bind w.sessions.lookup).getD {}
  if action = .link && session.userId.isNone then .done
  else if session.locked then .done
  else .startProvider { sid := sid.filter fun sid => (w.sessions.lookup sid).isSome, action, userId := session.userId } slug

/-- What `/callback` checks at once -/
def callback (sid : Sid) (q : Query) : Phase :=
  match w.sessions.lookup sid with
  | none => .done
  | some session =>
    match session.oidcPending with
    | none => .done
    | some p =>
      if session.locked then .refuse sid
      else if q.error then .done
      else if p.expiresAt < w.now then .refuse sid
      else match q.state, q.code with
        | some state, some code =>
          if state ≠ p.state then .refuse sid
          else .provider { sid, pending := p, code, state, time := w.now, last := w.started.find? (·.sid = sid) }
        | _, _ => .refuse sid

def unlink (sid : Sid) (id : IdentityId) : Phase :=
  match w.sessions.lookup sid with
  | some { userId := some uid, locked := false, .. } => .unlink uid id
  | _ => .done

def addSession (session : Session) : World :=
  { w with sessions := w.sessions.insert w.nextSid session, nextSid := w.nextSid + 1 }

/-- `delete req.session.oidcPending`, once it is saved -/
def clear (sid : Sid) : World := { w with sessions := w.sessions.modify sid fun session => { session with oidcPending := none } }

/-- The flow of a start, in a session that is still there. -/
def savePending (r : Start) (id : ProviderId) (time : Nat) : World :=
  let p := r.pending w.nextState id time
  match r.sid with
  | none =>
    { w.addSession { oidcPending := some p } with
      nextState := w.nextState + 1
      started := { sid := w.nextSid, pending := p, time, userId := r.userId } :: w.started }
  | some sid =>
    if (w.sessions.lookup sid).isNone then { w with nextState := w.nextState + 1 }
    else { w with
      sessions := w.sessions.modify sid fun session => { session with oidcPending := some p }
      nextState := w.nextState + 1
      started := { sid, pending := p, time, userId := r.userId } :: w.started }

/-- UNIQUE(issuer, subject) -/
def identity? (payload : Payload) : Option (IdentityId × Identity) :=
  w.identities.find? fun _ i => i.issuer = payload.iss && i.subject = payload.sub

def addIdentity (uid : UserId) (providerId : ProviderId) (payload : Payload) : World :=
  { w with
    identities := w.identities.insert w.nextIdentity { user_id := uid, provider_id := providerId, issuer := payload.iss, subject := payload.sub }
    nextIdentity := w.nextIdentity + 1 }

/-- The rows that a new identity refers to are there. -/
def refers (uid : UserId) (providerId : ProviderId) : Bool :=
  (w.users.lookup uid).isSome && (w.providers.lookup providerId).isSome

/-- `INSERT INTO user_identities … ON CONFLICT (issuer, subject) DO UPDATE SET last_used_at` -/
def upsertIdentity (uid : UserId) (providerId : ProviderId) (payload : Payload) : World :=
  if (w.identity? payload).isSome then w else w.addIdentity uid providerId payload

def named (username : String) : Option (UserId × User) := w.users.find? fun _ user => user.username = username

/-- `COUNT(*)` of the user's identities -/
def countIdentities (uid : UserId) : Nat := (w.identities.select fun _ i => i.user_id = uid).length

/-- The statement that the request waits for, and what the request does until its next one. -/
def run : Phase → Answer → Option (World × Phase)
  | .startProvider r slug, .next =>
    some (w, match w.providers.find? fun _ provider => provider.slug = slug && provider.enabled with
      | none => .done
      | some (id, _) => .startDiscover r id)
  | .startDiscover r id, .next => some (w, .startSave r id w.now)
  | .startDiscover _ _, .failed => some (w, .done)
  | .startSave r id time, .next => some (w.savePending r id time, .done)
  | .provider c, .next =>
    some (w, match (w.providers.lookup c.pending.providerId).filter (·.enabled) with
      | none => .finish c
      | some provider => .discover c provider)
  | .discover c provider, .next => some (w, .exchange c provider)
  | .discover c _, .failed | .exchange c _, .failed => some (w, .finish c)
  | .exchange c provider, .tokens payload =>
    if w.spent.contains c.code then none
    else some ({ w with spent := c.code :: w.spent }, c.verified toLowerCase provider payload)
  | .link c uid payload, .next =>
    if (w.identity? payload).isSome || !w.refers uid c.pending.providerId then some (w, .finish c)
    else some ({ w.addIdentity uid c.pending.providerId payload with
        uses := { callback := c, nonce := payload.nonce, user := uid, effect := .linked (w.sessions.lookup c.sid) } :: w.uses }, .finish c)
  | .findIdentity c provider payload, .next =>
    some (w, match w.identity? payload with
      | some (_, i) => .findUser c i.user_id payload
      | none => c.provisioning toLowerCase provider payload)
  | .findUser c uid payload, .next =>
    some (w, match w.users.lookup uid with
      | none => .finish c
      | some row => .regenerate c uid row payload.nonce)
  | .matchUser c username payload, .next =>
    some (w, match w.named username with
      | none => .finish c
      | some (uid, row) => .insertIdentity c uid row payload)
  | .provision c username payload, .next =>
    some (w, match w.named username with
      | none => .createUser c username payload
      | some (uid, row) => .insertIdentity c uid row payload)
  | .createUser c username payload, .next =>
    if (w.named username).isSome || ((w.providers.lookup c.pending.providerId).isNone && (w.identity? payload).isNone) then
      some (w, .finish c)
    else
      let row : User := { username }
      let w' := { w with users := w.users.insert w.nextUser row, nextUser := w.nextUser + 1 }
      some (w'.upsertIdentity w.nextUser c.pending.providerId payload, .regenerate c w.nextUser row payload.nonce)
  | .insertIdentity c uid row payload, .next =>
    if w.refers uid c.pending.providerId || (w.identity? payload).isSome then
      some (w.upsertIdentity uid c.pending.providerId payload, .regenerate c uid row payload.nonce)
    else some (w, .finish c)
  | .regenerate c uid row nonce, .next => some ({ w with sessions := w.sessions.erase c.sid }, .save c uid row nonce)
  | .save c uid row nonce, .next =>
    some ({ w.addSession { userId := some uid } with
      uses := { callback := c, nonce, user := uid, effect := .opened row } :: w.uses }, .done)
  | .finish c, .next => some (w.clear c.sid, .done)
  | .refuse sid, .next => some (w.clear sid, .done)
  | .unlink uid id, .next =>
    some (w, if ((w.users.lookup uid).any (·.hasPassword)) then .unlinkDelete uid id none else .unlinkCount uid id)
  | .unlinkCount uid id, .next =>
    some (w, if w.countIdentities uid ≤ 1 then .done else .unlinkDelete uid id (w.countIdentities uid))
  | .unlinkDelete uid id _, .next =>
    some ({ w with identities := w.identities.delete fun k i => k = id && i.user_id = uid }, .done)
  | _, _ => none

end World

/-- What comes from elsewhere. -/
inductive Change
  | tick (ms : Nat)
  /-- A session ends: a sign-out, or one of those that a disabled or deleted user had. -/
  | endSession (sid : Sid)
  /-- A sign-in by another route. -/
  | signIn (sid : Option Sid) (uid : UserId)
  | lock (sid : Sid) (locked : Bool)
  | addUser (user : User)
  | setDisabled (uid : UserId) (disabled : Bool)
  | setPassword (uid : UserId)
  | deleteUser (uid : UserId)
  | editProvider (id : ProviderId) (provider : Provider)
  | deleteProvider (id : ProviderId)

def World.change (w : World) : Change → World
  | .tick ms => { w with now := w.now + ms }
  | .endSession sid => { w with sessions := w.sessions.erase sid }
  | .signIn sid uid => ({ w with sessions := sid.elim w.sessions w.sessions.erase } : World).addSession { userId := some uid }
  | .lock sid locked => { w with sessions := w.sessions.modify sid fun session => { session with locked } }
  | .addUser user => { w with users := w.users.insert w.nextUser user, nextUser := w.nextUser + 1 }
  | .setDisabled uid disabled => { w with users := w.users.modify uid fun user => { user with disabled } }
  | .setPassword uid => { w with users := w.users.modify uid fun user => { user with hasPassword := true } }
  | .deleteUser uid => { w with users := w.users.erase uid, identities := w.identities.delete fun _ i => i.user_id = uid }
  | .editProvider id provider => { w with providers := w.providers.insert id provider }
  | .deleteProvider id => { w with providers := w.providers.erase id, identities := w.identities.delete fun _ i => i.provider_id = id }

structure State where
  world : World
  requests : List Phase

inductive Label
  | change (c : Change)
  | start (sid : Option Sid) (action : Action) (slug : String)
  | callback (sid : Sid) (q : Query)
  | unlink (sid : Sid) (id : IdentityId)
  | run (i : Nat) (answer : Answer)

def step (s : State) : Label → Option State
  | .change c => some { s with world := s.world.change c }
  | .start sid action slug => some { s with requests := s.requests ++ [s.world.start sid action slug] }
  | .callback sid q => some { s with requests := s.requests ++ [s.world.callback sid q] }
  | .unlink sid id => some { s with requests := s.requests ++ [s.world.unlink sid id] }
  | .run i answer =>
    match s.requests[i]? with
    | none => none
    | some p => (s.world.run toLowerCase p answer).map fun (w, p') => { world := w, requests := s.requests.set i p' }

structure World.Initial (w : World) : Prop where
  users : w.users = ∅
  sessions : w.sessions = ∅
  identities : w.identities = ∅
  started : w.started = []
  uses : w.uses = []

/-- Nobody has been added or has signed in, and no request has come. -/
def system : TransitionSystem State Label where
  init s := s.world.Initial ∧ s.requests = []
  step := step toLowerCase

end

end MailExpert.Oidc
