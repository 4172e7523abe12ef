import MailExpert.Lib.Agents
import MailExpert.Lib.Table
import MailExpert.Lib.TransitionSystem

/-!
# The screen lock

The requests of one browser: `POST /lock`, `/unlock` and `/logout` of `routes/auth.js`, any other request through the identity gate
(`middleware/identityGate.js`, `bindSessionUser`) and the screen-lock gate of `index.js`, those with a large body
(`middleware/bodyParsers.js`), and the sign-ins of `routes/oidc.js` and `routes/authGoogle.js`. A request comes with the cookie that the
browser has then, and waits any time at each of its statements.

A request keeps the session as it was loaded, and a copy that it changes; where the two differ, the copy is written over the fields
stored when the request ends (`utils/sessionStore.js`), with its answer. The answer gives the browser the id of the request's session
again (`rolling`). A session that was just generated is stored then, under a new id.
-/

namespace MailExpert.ScreenLock

abbrev UserId := Nat
abbrev Sid := Nat

/-- `authMethod`; the local sign-ins set none. -/
inductive Method
  | cloudflare | google
  deriving DecidableEq

structure Session where
  userId : Option UserId := none
  authMethod : Option Method := none
  locked : Option Bool := none
  /-- A sign-in was started: `oidcPending` or `googleSignInState`. -/
  flow : Bool := false
  deriving DecidableEq

def Session.isLocked (session : Session) : Bool := session.locked = some true

inductive Kind
  | plain
  /-- `/api/auth/me` and what else LOCK_ALLOWED names. -/
  | allowed
  | upload | lock | unlock | logout
  deriving DecidableEq

/-- `LOCK_ALLOWED` -/
def Kind.passes : Kind → Bool
  | .allowed | .unlock | .logout => true
  | _ => false

structure Req where
  /-- None where the cookie named no session, or the session was generated and is not stored. -/
  sid : Option Sid
  base : Session
  copy : Session
  /-- The session is a new one, and is stored with the answer. -/
  fresh : Bool := false
  /-- The session is not the one that the cookie named. -/
  moved : Bool := false
  /-- How many locks had answered when the request came, and whether the session had been signed out since: history. -/
  epoch : Nat
  afterOut : Bool

/-- A request, at the statement it waits for. -/
inductive Phase
  | done
  /-- The identity gate, with the user of the Access token. -/
  | gate (r : Req) (token : Option UserId) (kind : Kind)
  /-- An upload that passed the identity gate, before and after its body. -/
  | body (r : Req) (token : Option UserId)
  | reload (r : Req) (token : Option UserId)
  | check (r : Req) (kind : Kind)
  | handle (r : Req) (kind : Kind)
  | start (r : Req)
  /-- A sign-in callback, with Google or with OIDC. -/
  | callback (r : Req) (google : Bool)
  | answer (r : Req)

def Phase.req : Phase → Option Req
  | .done => none
  | .gate r _ _ | .body r _ | .reload r _ | .check r _ | .handle r _ | .start r | .callback r _ | .answer r => some r

inductive Answer
  | next
  /-- The identity gate, the provider or the PIN check refuses; `ends` where this ends the session. -/
  | refused (ends : Bool)
  /-- The user of a sign-in. -/
  | user (uid : UserId)

structure State where
  sessions : Table Sid Session
  nextSid : Sid
  /-- The cookie of the browser. -/
  cookie : Option Sid
  requests : List Phase
  /-- History: the user whose lock answered last and was neither unlocked nor signed in again since, how many locks answered, whether the
  session was signed out since, and the requests that came under that lock and passed the gate. -/
  lockedFor : Option UserId := none
  locks : Nat := 0
  signedOut : Bool := false
  passed : List Req := []

namespace State

variable (s : State)

def load : Req :=
  let stored := s.cookie.filter fun sid => (s.sessions.lookup sid).isSome
  let session := (stored.bind s.sessions.lookup).getD {}
  { sid := stored, base := session, copy := session, epoch := s.locks, afterOut := s.signedOut }

/-- The session is the one that the browser has, or is about to get. -/
def current (sid : Sid) : Bool :=
  s.cookie = some sid || s.requests.any fun p => p.req.any fun r => r.moved && r.sid = some sid

/-- `req.session.destroy` -/
def destroy : Option Sid → State
  | none => s
  | some sid => { s with
      sessions := s.sessions.erase sid
      signedOut := s.signedOut || ((s.sessions.lookup sid).isSome && s.current sid) }

/-- The request ends its session, which may not be stored yet. -/
def leave (r : Req) : State := if r.fresh then { s with signedOut := true } else s.destroy r.sid

/-- `regenerate`, and a sign-in as the user in the new session -/
def signIn (r : Req) (session : Session) : State × Req :=
  ({ s with
      sessions := r.sid.elim s.sessions s.sessions.erase
      lockedFor := if r.copy.userId.isNone && r.afterOut && r.epoch = s.locks then none else s.lockedFor },
    { r with sid := none, base := {}, copy := session, fresh := true, moved := true })

/-- `bindSessionUser` -/
def bindSessionUser (r : Req) (uid : UserId) (method : Method) : State × Req :=
  if r.copy.userId = some uid && r.copy.authMethod = some method then (s, r)
  else s.signIn r {
    userId := some uid, authMethod := some method
    locked := if r.copy.userId = some uid && r.copy.isLocked then some true else none }

/-- What the guarded store writes of a session that was loaded. -/
def merge (r : Req) (stored : Session) : Session :=
  { stored with
    locked := if r.copy.locked = r.base.locked then stored.locked else r.copy.locked
    flow := if r.copy.flow = r.base.flow then stored.flow else r.copy.flow }

def save (r : Req) : State × Req :=
  if r.fresh then
    ({ s with sessions := s.sessions.insert s.nextSid r.copy, nextSid := s.nextSid + 1 },
      { r with sid := some s.nextSid, base := r.copy, fresh := false })
  else ({ s with sessions := r.sid.elim s.sessions fun sid => s.sessions.modify sid (merge r) }, { r with base := r.copy })

def finish (r : Req) : State :=
  let (s', r') := s.save r
  { s' with cookie := r'.sid <|> s.cookie }

/-- What a request does after the identity gate let it on. -/
def gated (r : Req) (token : Option UserId) (kind : Kind) : Phase :=
  if kind = .upload then (if r.copy.userId.isNone then .done else .body r token) else .check r kind

/-- The screen-lock gate lets the request on. -/
def pass (r : Req) (kind : Kind) : State :=
  if s.lockedFor.isSome && r.epoch = s.locks && r.copy.userId.isSome && !kind.passes then { s with passed := r :: s.passed } else s

/-- The statement that the request waits for, and what the request does until its next one. -/
def run : Phase → Answer → Option (State × Phase)
  | .gate r none kind, .next => some (s, gated r none kind)
  | .gate r (some uid) kind, .next =>
    let (s', r') := s.bindSessionUser r uid .cloudflare
    some (s', gated r' (some uid) kind)
  | .gate r _ _, .refused ends => if ends && r.copy.userId.isSome then some (s.leave r, .done) else some (s, .answer r)
  | .body r token, .next =>
    if r.moved then
      let (s', r') := s.save r
      some (s', .reload r' token)
    else some (s, .reload r token)
  | .body r _, .refused _ => some (s, if r.moved then .answer r else .done)
  | .reload r token, .next =>
    match r.sid.bind s.sessions.lookup with
    | none => some (s, .done)
    | some session => some (s, .gate { r with base := session, copy := session } token .plain)
  | .check r kind, .next => if r.copy.isLocked && !kind.passes then some (s, .answer r) else some (s.pass r kind, .handle r kind)
  | .handle r .lock, .next =>
    if r.copy.userId.isNone then some (s, .answer r)
    else some ({ s.finish { r with copy := { r.copy with locked := some true } } with
      lockedFor := r.copy.userId, locks := s.locks + 1, signedOut := false }, .done)
  | .handle r .unlock, .next =>
    if r.copy.userId.isNone then some (s, .answer r)
    else some ({ s.finish { r with copy := { r.copy with locked := some false } } with
      lockedFor := if r.epoch = s.locks then none else s.lockedFor }, .done)
  | .handle r .unlock, .refused ends => if ends && r.copy.userId.isSome then some (s.leave r, .done) else some (s, .answer r)
  | .handle r .logout, .next => some ({ s.destroy r.sid with cookie := none, signedOut := true }, .done)
  | .handle r _, .next => some (s, .answer r)
  | .start r, .next => some (s, .answer { r with copy := { r.copy with flow := true }, fresh := r.sid.isNone, moved := r.sid.isNone })
  | .start r, .refused _ => some (s, .answer r)
  | .callback r _, .refused _ => some (s, .answer { r with copy := { r.copy with flow := false } })
  | .callback r true, .user uid =>
    let (s', r') := s.bindSessionUser { r with copy := { r.copy with flow := false } } uid .google
    some (s', .answer r')
  | .callback r false, .user uid =>
    let (s', r') := s.signIn r { userId := some uid }
    some (s', .answer r')
  | .answer r, .next => some (s.finish r, .done)
  | _, _ => none

def receive (token : Option UserId) (kind : Kind) : Phase :=
  if kind = .logout then .check s.load kind else .gate s.load token kind

def receiveStart : Phase := if s.load.copy.isLocked then .answer s.load else .start s.load

def receiveCallback (google : Bool) : Phase :=
  if s.load.copy.isLocked || !s.load.copy.flow then .answer { s.load with copy := { s.load.copy with flow := false } }
  else .callback s.load google

end State

inductive Label
  | request (token : Option UserId) (kind : Kind)
  | start
  | callback (google : Bool)
  /-- A session of the browser ends elsewhere. -/
  | endSession (sid : Sid)
  | run (i : Nat) (answer : Answer)

def step (s : State) : Label → Option State
  | .request token kind => some { s with requests := s.requests ++ [s.receive token kind] }
  | .start => some { s with requests := s.requests ++ [s.receiveStart] }
  | .callback google => some { s with requests := s.requests ++ [s.receiveCallback google] }
  | .endSession sid => some (s.destroy (some sid))
  | .run i answer =>
    match s.requests[i]? with
    | none => none
    | some p => (s.run p answer).map fun (s', p') => { s' with requests := s'.requests.set i p' }

structure Initial (s : State) : Prop where
  sessions : s.sessions = ∅
  cookie : s.cookie = none
  requests : s.requests = []
  lockedFor : s.lockedFor = none
  passed : s.passed = []

def system : TransitionSystem State Label where
  init := Initial
  step := step

end MailExpert.ScreenLock
