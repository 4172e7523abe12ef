import MailExpert.Lib.Agents
import MailExpert.Lib.Table
import MailExpert.Lib.TransitionSystem

/-!
# The ChatGPT sign-in

`services/openaiCodexAuth.js`: the flows and the credential, the polls of a flow and the refreshes of the credential. Each method of
`createPostgresCodexStore` is one step; a refresh holds the lock of the credential's row from its read to its write, and what writes
or deletes that row waits for it. A poll or a refresh may wait at its upstream request for any time. The upstream issues a code for
one flow and accepts it once.

`issued`, `spent`, `exchanged`, `stored` and `redeemed` are history: the codes that the upstream issued and accepted, the tokens that
polls received and stored, and what refreshes received for which credential's refresh token.
-/

namespace MailExpert.Codex

abbrev FlowId := Nat

abbrev Code := String

/-- An administrator and the hash of a session. -/
abbrev Owner := Nat × String

inductive FlowState
  | pending | polling | authorized | completed | cancelled | expired | failed
  deriving DecidableEq

/-- `pending`, `polling`, `authorized` -/
def FlowState.live : FlowState → Bool
  | .pending | .polling | .authorized => true
  | _ => false

structure Flow where
  owner : Owner
  state : FlowState := .pending
  /-- The authorization code, with its verifier. -/
  code : Option Code := none
  intervalMs : Nat
  expiresAt : Nat
  nextPollAt : Nat
  failureCode : Option String := none
  updatedAt : Nat

structure Tokens where
  access : String
  refresh : String
  expiresAt : Nat
  deriving DecidableEq

/-- The credential; one that is not connected has to be reconnected. -/
structure Credential where
  connected : Bool := true
  accessToken : Option String
  refreshToken : Option String
  expiresAt : Nat
  failureCode : Option String := none
  deriving DecidableEq

def Tokens.credential (t : Tokens) : Credential :=
  { accessToken := some t.access, refreshToken := some t.refresh, expiresAt := t.expiresAt }

def DEVICE_TIMEOUT_MS : Nat := 15 * 60000
def MAX_INTERVAL_MS : Nat := 60000
def SLOW_DOWN_MS : Nat := 5000
def POLL_CLAIM_STALE_MS : Nat := 30000
def REFRESH_SKEW_MS : Nat := 60000
def TERMINAL_REFRESH_ERRORS : List String := ["invalid_grant", "invalid_client", "unauthorized_client"]

/-- The arguments of `releaseFlow`. -/
structure Release where
  state : FlowState
  intervalMs : Option Nat := none
  nextPollAt : Option Nat := none
  failureCode : Option String := none
  clearSecrets : Bool := false

/-- `pollDeviceFlow`, at the store method or the request that it waits for. -/
inductive Poll
  /-- With the time that it started at. -/
  | claim (flow : FlowId) (owner : Owner) (time : Nat)
  /-- The request to DEVICE_TOKEN_URL; the flow as it was claimed. -/
  | device (id : FlowId) (flow : Flow)
  | authorize (id : FlowId) (code : Code)
  | exchange (id : FlowId) (code : Code)
  | complete (id : FlowId) (tokens : Tokens)
  | release (id : FlowId) (r : Release)
  | done

def Poll.holds : Poll → Option FlowId
  | .device id _ | .authorize id _ | .exchange id _ | .complete id _ | .release id _ => some id
  | _ => none

/-- `getAccess`, at the same; `force` is `forceRefresh`. -/
inductive Refresh
  | read (force : Bool)
  | lock (force : Bool)
  /-- The request to TOKEN_URL, and the credential that was read under the lock. -/
  | fetch (read : Credential)
  | save (read new : Credential)
  | done

/-- What a step meets: nothing, or the answer of a request. -/
inductive Answer
  | next
  /-- The device is not authorized yet, or the poll is to slow down. -/
  | waiting
  | slowDown
  /-- An error: whether the upstream answered at all, and whether it accepted the code of the request for all that. -/
  | error (code : Option String) (transient answered accepted : Bool)
  | code (c : Code)
  | tokens (t : Tokens)
  /-- A refresh may answer without a new refresh token. -/
  | refreshed (access : String) (refresh : Option String) (expiresAt : Nat)

structure State where
  now : Nat
  flows : Table FlowId Flow
  nextFlow : FlowId
  credential : Option Credential
  /-- The refresh that holds the lock of the credential's row. -/
  lock : Option Nat
  polls : List Poll
  refreshes : List Refresh
  issued : List (Code × FlowId) := []
  spent : List Code := []
  exchanged : List (FlowId × Tokens) := []
  stored : List (FlowId × Tokens) := []
  redeemed : List (Credential × Credential) := []

/-- `failureCode` of `releaseFailed` -/
def failureCode (code : Option String) (transient : Bool) : String :=
  code.getD (if transient then "transient_error" else "authorization_failed")

def releaseFailed (code : Option String) (transient : Bool) (state : FlowState) : Release :=
  { state, failureCode := some (failureCode code transient), clearSecrets := state = .failed }

namespace State

variable (s : State)

def setFlow (id : FlowId) (f : Flow → Flow) : State := { s with flows := s.flows.modify id f }

/-- `cancelFlow`, of a flow that is live -/
def cancel (flow : Flow) : Flow :=
  if flow.state.live then { flow with state := .cancelled, code := none, updatedAt := s.now } else flow

def createFlow (owner : Owner) (intervalMs : Nat) : State :=
  let flow : Flow := {
    owner, intervalMs
    expiresAt := s.now + DEVICE_TIMEOUT_MS
    nextPollAt := s.now + intervalMs
    updatedAt := s.now }
  let flows := (s.flows.update (fun _ f => f.owner = owner) fun _ => s.cancel).delete fun _ f => f.expiresAt + 86400000 < s.now
  { s with flows := flows.insert s.nextFlow flow, nextFlow := s.nextFlow + 1 }

/-- `claimFlow`, with what the poll does next -/
def claimFlow (id : FlowId) (owner : Owner) (time : Nat) : State × Poll :=
  match s.flows.lookup id with
  | none => (s, .done)
  | some flow =>
    if flow.owner ≠ owner then (s, .done)
    else if flow.state.live && flow.expiresAt ≤ time then
      (s.setFlow id fun flow => { flow with state := .expired, code := none, updatedAt := time }, .done)
    else if !flow.state.live then (s, .done)
    else if flow.state = .pending && time < flow.nextPollAt then (s, .done)
    else if flow.state = .polling && time < flow.updatedAt + POLL_CLAIM_STALE_MS then (s, .done)
    else
      (s.setFlow id fun flow => { flow with state := .polling, updatedAt := time },
        match flow.code with
        | none => .device id { flow with state := .polling, updatedAt := time }
        | some code => .exchange id code)

def releaseFlow (id : FlowId) (r : Release) : State :=
  s.setFlow id fun flow =>
    if flow.state = .polling || flow.state = .authorized then
      { flow with
        state := r.state
        intervalMs := r.intervalMs.getD flow.intervalMs
        nextPollAt := r.nextPollAt.getD flow.nextPollAt
        failureCode := r.failureCode
        code := if r.clearSecrets then none else flow.code
        updatedAt := s.now }
    else flow

/-- `authorizeFlow`, with what the poll does next -/
def authorizeFlow (id : FlowId) (code : Code) : State × Poll :=
  if (s.flows.lookup id).any (·.state = .polling) then
    (s.setFlow id fun flow => { flow with state := .authorized, code := some code, updatedAt := s.now }, .exchange id code)
  else (s, .done)

/-- `completeFlow`; it waits while the credential is locked, if it comes to that. -/
def completeFlow (id : FlowId) (tokens : Tokens) : Option State :=
  if (s.flows.lookup id).any fun flow => flow.state = .polling || flow.state = .authorized then
    if s.lock.isSome then none
    else some { s.setFlow id fun flow => { flow with state := .completed, code := none, updatedAt := s.now } with
      credential := some tokens.credential
      stored := (id, tokens) :: s.stored }
  else some s

def poll : Poll → Answer → Option (State × Poll)
  | .claim id owner time, .next => some (s.claimFlow id owner time)
  | .device id flow, .waiting =>
    some (s, .release id { state := .pending, nextPollAt := some (s.now + flow.intervalMs) })
  | .device id flow, .slowDown =>
    let intervalMs := min MAX_INTERVAL_MS (flow.intervalMs + SLOW_DOWN_MS)
    some (s, .release id { state := .pending, intervalMs := some intervalMs, nextPollAt := some (s.now + intervalMs) })
  | .device id _, .error code transient answered _ =>
    some (s, .release id (releaseFailed code transient (if transient || !answered then .pending else .failed)))
  | .device id _, .code c =>
    if s.issued.all fun (c', id') => c' ≠ c || id' = id then some ({ s with issued := (c, id) :: s.issued }, .authorize id c) else none
  | .authorize id code, .next => some (s.authorizeFlow id code)
  | .exchange id code, .error failure transient _ accepted =>
    if accepted && s.spent.contains code then none
    else some ({ s with spent := if accepted then code :: s.spent else s.spent },
      .release id (releaseFailed failure transient (if transient then .authorized else .failed)))
  | .exchange id code, .tokens t =>
    if s.spent.contains code then none
    else some ({ s with spent := code :: s.spent, exchanged := (id, t) :: s.exchanged }, .complete id t)
  | .complete id t, .next => (s.completeFlow id t).map fun s' => (s', .done)
  | .release id r, .next => some (s.releaseFlow id r, .done)
  | _, _ => none

/-- The credential is used as it is. -/
def fresh (c : Credential) (force : Bool) : Bool := !force && s.now + REFRESH_SKEW_MS < c.expiresAt

end State

def Credential.reconnect (c : Credential) (code : String) : Credential :=
  { c with connected := false, accessToken := none, refreshToken := none, failureCode := some code }

namespace State

variable (s : State)

def refresh (i : Nat) : Refresh → Answer → Option (State × Refresh)
  | .read force, .next => some (s, match s.credential with
    | none => .done
    | some c => if !c.connected || s.fresh c force then .done else .lock force)
  | .lock force, .next =>
    if s.lock.isSome then none
    else match s.credential with
      | none => some (s, .done)
      | some c =>
        if !c.connected || s.fresh c force then some (s, .done)
        else some ({ s with lock := some i },
          if c.refreshToken.isSome then .fetch c else .save c (c.reconnect "missing_refresh_token"))
  | .fetch c, .error code _ _ _ =>
    match code.filter TERMINAL_REFRESH_ERRORS.contains with
    | some code => some (s, .save c (c.reconnect code))
    | none => some ({ s with lock := none }, .done)
  | .fetch c, .refreshed access refreshToken expiresAt =>
    let new : Credential := { accessToken := some access, refreshToken := refreshToken <|> c.refreshToken, expiresAt }
    some ({ s with redeemed := (c, new) :: s.redeemed }, .save c new)
  | .save _ new, .next => some ({ s with credential := some new, lock := none }, .done)
  | _, _ => none

end State

inductive Label
  | tick (ms : Nat)
  /-- `startDeviceFlow`, once the upstream answered -/
  | createFlow (owner : Owner) (intervalMs : Nat)
  | cancelFlow (id : FlowId) (owner : Owner)
  | disconnect
  | poll (id : FlowId) (owner : Owner)
  | goOn (i : Nat) (answer : Answer)
  | getAccess (force : Bool)
  | refresh (i : Nat) (answer : Answer)

def step (s : State) : Label → Option State
  | .tick ms => some { s with now := s.now + ms }
  | .createFlow owner intervalMs => some (s.createFlow owner intervalMs)
  | .cancelFlow id owner =>
    some (s.setFlow id fun flow => if flow.owner = owner then s.cancel flow else flow)
  | .disconnect =>
    if s.lock.isSome then none
    else some { s with flows := s.flows.update (fun _ _ => true) fun _ => s.cancel, credential := none }
  | .poll id owner => some { s with polls := s.polls ++ [.claim id owner s.now] }
  | .goOn i answer =>
    match s.polls[i]? with
    | none => none
    | some p => (s.poll p answer).map fun (s', p') => { s' with polls := s'.polls.set i p' }
  | .getAccess force => some { s with refreshes := s.refreshes ++ [.read force] }
  | .refresh i answer =>
    match s.refreshes[i]? with
    | none => none
    | some r => (s.refresh i r answer).map fun (s', r') => { s' with refreshes := s'.refreshes.set i r' }

/-- Nothing has been signed in or started. -/
structure Initial (s : State) : Prop where
  flows : s.flows = ∅
  lock : s.lock = none
  polls : s.polls = []
  refreshes : s.refreshes = []
  issued : s.issued = []
  spent : s.spent = []
  exchanged : s.exchanged = []
  stored : s.stored = []
  redeemed : s.redeemed = []

def system : TransitionSystem State Label where
  init := Initial
  step := step

end MailExpert.Codex
