import MailExpert.Lib.TransitionSystem
import MailExpert.ProtonWorker.Accounts

/-!
# The controller of the Proton worker and its Bridge

The worker as a transition system: its methods (`controller.py`), each one critical section under the controller's lock;
the native Bridge with its logins and its event stream (`native.py`); and the two places where the lock is given up:
`snapshot_begin` while it drains, and `_recover` while it restarts Bridge. An event passes the epoch check when the pump
hands it over and then waits for the lock, so it may be handled after Bridge was restarted.

`State.granted` and the outcomes in `Bridge.logins` are history: no method reads them.
-/

namespace MailExpert.ProtonWorker

abbrev SnapshotId := String
abbrev LeaseId := String

def MAX_RECONCILE_FAILURES : Nat := 5
def RECONCILE_BACKOFF_CAP : Nat := 60
def RECOVERY_BACKOFF_CAP : Nat := 300
def CANCELLED_LEASES_KEPT : Nat := 4096

/-- The arguments of `BridgeController`. -/
structure Config where
  recoverySeconds : Nat := 30
  ttlSeconds : Nat := 600
  snapshotWaitSeconds : Nat := 60
  snapshotTtlSeconds : Nat := 300

inductive WorkerError
  | unavailable | operationConflict | loginBusy | maintenanceBusy | invalidChallenge | notFound | notConnected
  | generationMismatch | leaseCancelled | snapshotBusy
  deriving DecidableEq

/-! ## Bridge -/

inductive LoginEvent
  | needs2fa | needsSecondPassword | hv
  | error (code : NativeCode)
  | finished (u : UserId)
  | alreadyLoggedIn (u : UserId)
  deriving DecidableEq

/-- How a native login ended. -/
inductive Outcome
  | error | finished (u : UserId) | alreadyLoggedIn (u : UserId)
  /-- The call did not reach Bridge. -/
  | unsent
  deriving DecidableEq

def LoginEvent.outcome? : LoginEvent → Option Outcome
  | .needs2fa | .needsSecondPassword | .hv => none
  | .error code => if code.retryable?.isSome then none else some .error
  | .finished u => some (.finished u)
  | .alreadyLoggedIn u => some (.alreadyLoggedIn u)

/-- An event of the stream. A login event is one of login number `cause`, which the controller does not see. -/
inductive Event
  | login (cause : Nat) (e : LoginEvent)
  | userChanged (u : UserId)
  | streamEnded
  | noKeychain
  deriving DecidableEq

/-- A native login: the attempt it was sent for, the process that has it, and how it ended. -/
structure Login where
  op : OpId
  epoch : Nat
  outcome : Option Outcome
  deriving DecidableEq

structure Bridge where
  running : Bool := false
  /-- The event stream is up. -/
  stream : Bool := false
  epoch : Nat := 0
  users : List UserId := []
  /-- Every login sent, by number. -/
  logins : List Login := []
  /-- Events of the stream that the pump has not taken yet. -/
  queue : List Event := []

/-- How a call that changes something in Bridge ends: it succeeds, fails after it reached Bridge, or fails before. -/
inductive Call
  | done | lost | unsent
  deriving DecidableEq

/-- Why users are listed; in one critical section each at most once. -/
inductive Listing
  | before | orphans (id : OpId) | timer (u : UserId) | earlier (u : UserId) | changed (u : UserId)

/-- How Bridge answers the native calls of one critical section. -/
structure Native where
  /-- A new process comes up. -/
  launches : Bool := true
  stops : Bool := true
  lists : Listing → Bool := fun _ => true
  getUser : OpId → Option User := fun _ => none
  call : Call := .done

namespace Bridge

variable (b : Bridge)

/-- `_launch`: a new process, or none. -/
def launch (n : Native) : Bridge :=
  { b with running := n.launches, stream := n.launches, epoch := b.epoch + 1, queue := [] }

/-- `start`: a process that still runs is kept as it is. -/
def start (n : Native) : Bridge × Bool := if b.running then (b, true) else (b.launch n, n.launches)

/-- `recover` -/
def recover (n : Native) : Bridge × Bool := (b.launch n, n.launches)

/-- `shutdown`: the process exits, or the wait for it fails; its events are dropped either way. -/
def shutdown (n : Native) : Bridge × Bool :=
  ({ b with running := b.running && !n.stops, stream := false, epoch := b.epoch + 1, queue := [] }, n.stops)

/-- `list_users` -/
def listUsers (answers : Bool) : Option (List UserId) := if b.running && answers then some b.users else none

/-- `login` for the attempt `id` -/
def login (id : OpId) (n : Native) : Bridge × Bool :=
  ({ b with logins := b.logins ++ [⟨id, b.epoch, if b.running && n.call ≠ .unsent then none else some .unsent⟩] },
    b.running && n.call = .done)

/-- `continue_login`: the process that gets it has the login from then on. -/
def continueLogin (n : Native) : Bridge × Bool :=
  ({ b with logins := if b.running && n.call ≠ .unsent
      then b.logins.modify (b.logins.length - 1) fun l => if l.outcome = none then { l with epoch := b.epoch } else l
      else b.logins },
    b.running && n.call = .done)

/-- Login `k` may still produce events. -/
def isOpen (k : Nat) : Bool := b.running && b.logins[k]?.any fun l => l.epoch = b.epoch && l.outcome = none

/-- Login `k` produces an event; users appear when a login finishes. -/
def emit (k : Nat) (e : LoginEvent) : Option Bridge :=
  if b.isOpen k then
    let users := match e with
      | .finished u => if b.users.contains u then some b.users else some (b.users ++ [u])
      | .alreadyLoggedIn u => if b.users.contains u then some b.users else none
      | _ => some b.users
    users.map fun users =>
      { b with
        users := users
        logins := b.logins.modify k fun l => { l with outcome := e.outcome? }
        queue := if b.stream then b.queue ++ [.login k e] else b.queue }
  else none

end Bridge

structure Timers where
  nextStartAt : Nat := 0
  reconcileFailures : Nat := 0
  nextReconcileAt : Nat := 0
  recoveryStreak : Nat := 0
  nextRecoveryAt : Nat := 0
  lastRecoveryAt : Option Nat := none

/-- What a snapshot relies on from the moment a `snapshot_begin` returned. -/
structure Grant where
  id : SnapshotId
  links : Table (UserId × Address) Generation
  journal : Journal
  epoch : Nat

structure Gate where
  id : SnapshotId
  expiresAt : Nat

/-- A `snapshot_begin` in `_wait_drained`. -/
structure Waiter where
  id : SnapshotId
  deadline : Nat

structure State where
  accounts : Accounts
  started : Bool
  nativeLost : Bool
  recovering : Bool
  timers : Timers
  /-- What `native.recover` answered `_recover`, which waits for the lock. -/
  recovery : Option Bool
  sendLeases : List LeaseId
  cancelledLeases : List LeaseId
  snapshot : Option Gate
  waiters : List Waiter
  /-- The snapshot that a `snapshot_begin` returned for, until its gate is ended, expires or is taken over. -/
  granted : Option Grant
  journal : Journal
  bridge : Bridge
  /-- Events that the pump handed over, with their epoch, waiting for the lock. -/
  waiting : List (Nat × Event)
  now : Nat
  /-- The users of Bridge before the worker's first attempt. -/
  initial : List UserId

namespace State

variable (cfg : Config) (s : State) (n : Native)

/-- `_persist` -/
def persist : State := { s with journal := s.accounts.saved }

/-- `_alive` -/
def alive : Bool := s.started && !s.nativeLost && s.bridge.running

/-- `_needs_bridge` -/
def needsBridge : Bool :=
  !s.accounts.links.entries.isEmpty || !s.accounts.pendingRemovals.entries.isEmpty || s.accounts.reconcilePending

/-- `_busy` -/
def busy : Bool :=
  s.accounts.slot.isSome || s.recovering || s.snapshot.isSome || s.accounts.reconcilePending || s.accounts.removingAttempt

def list (l : Listing) : Option (List UserId) := s.bridge.listUsers (n.lists l)

/-- `_reconcile_all` -/
def reconcileAll : State × Bool :=
  let (accounts, reconciled) := s.accounts.reconcileAll s.now fun id => s.list n (.orphans id)
  let failures := s.timers.reconcileFailures + 1
  ({ s with
      accounts := accounts
      timers := if reconciled then { s.timers with reconcileFailures := 0 }
        else { s.timers with
          reconcileFailures := failures, nextReconcileAt := s.now + min (2 ^ failures) RECONCILE_BACKOFF_CAP } },
    reconciled)

/-- `_after_restart` -/
def afterRestart : State :=
  let earlier := s.accounts.pendingRemovals.keys
  let s := (reconcileAll { s with timers := { s.timers with reconcileFailures := 0, nextReconcileAt := 0 } } n).1
  { s with accounts := earlier.foldl (fun a u => a.retryRemoval s.now u (s.list n (.earlier u))) s.accounts }

/-- `_ensure_started` -/
def ensureStarted : State × Except WorkerError Unit :=
  if s.alive then (s, .ok ())
  else if s.snapshot.isSome then (s, .error .maintenanceBusy)
  else
    let (bridge, up) := if s.started then s.bridge.recover n else s.bridge.start n
    if up then (afterRestart { s with bridge := bridge, started := true, nativeLost := false } n, .ok ())
    else ({ s with bridge := bridge, started := false }, .error .unavailable)

/-! ## Sign-ins -/

/-- `start_connection` -/
def startConnection (id : OpId) (email : Address) : State × Except WorkerError Unit :=
  match s.accounts.operations.lookup id with
  | some existing => (s, if existing.email = email then .ok () else .error .operationConflict)
  | none =>
    if s.busy then (s, .error .loginBusy)
    else match s.ensureStarted n with
      | (s, .error e) => (s, .error e)
      | (s, .ok ()) =>
        if s.busy then (s, .error .loginBusy)
        else match s.list n .before with
          | none => (s, .error .unavailable)
          | some preexisting =>
            let op : Operation := { email := email, createdAt := s.now, preexisting := preexisting }
            let s := persist { s with
              accounts := { s.accounts with operations := s.accounts.operations.insert id op, slot := some id } }
            let (bridge, sent) := s.bridge.login id n
            let s := { s with bridge := bridge }
            if sent then (s, .ok ())
            else (persist { s with accounts := s.accounts.endOp s.now id .failed (some .workerUnavailable) }, .ok ())

/-- `continue_connection`; `challenge` is the state of `CHALLENGES` that it answers. -/
def continueConnection (id : OpId) (challenge : OpState) : State × Except WorkerError Unit :=
  match s.accounts.operations.lookup id with
  | none => (s, .error .notFound)
  | some op =>
    if (challenge = .needs2fa || challenge = .needsSecondPassword) && op.state = challenge && s.accounts.slot = some id then
      let s := persist { s with
        accounts := s.accounts.modify id fun op => { op with state := .authenticating, errorCode := none } }
      let (bridge, sent) := s.bridge.continueLogin n
      let s := { s with bridge := bridge }
      if sent then (s.persist, .ok ())
      else (persist { s with accounts := s.accounts.endOp s.now id .failed (some .workerUnavailable) }, .ok ())
    else (s, .error .invalidChallenge)

/-- `cancel_connection` -/
def cancelConnection (id : OpId) : State × Except WorkerError Unit :=
  match s.accounts.operations.lookup id with
  | none => (s, .error .notFound)
  | some op =>
    let accounts :=
      if op.state = .connected && !op.committed then
        (s.accounts.endOp s.now id .cancelled none).dropAttemptUser s.now id
      else if op.state.active then s.accounts.stopAttempt s.now id .cancelled none
      else s.accounts
    (persist { s with accounts := accounts }, .ok ())

/-- `_finalizing` -/
def finalizing (op : Operation) : Bool :=
  op.state = .connected && !op.committed && decide (s.now < op.createdAt + cfg.ttlSeconds)

/-- `_admit` lets the call pass. -/
def admits (op? : Option Operation) : Bool := s.snapshot.isNone || op?.any (s.finalizing cfg)

/-- `commit_connection` -/
def commitConnection (id : OpId) (u : UserId) (generation : Generation) (previous : Option Generation) :
    State × Except WorkerError Unit :=
  match s.accounts.operations.lookup id with
  | none => (s, .error .notFound)
  | some op =>
    if !s.admits cfg op then (s, .error .maintenanceBusy)
    else if op.state ≠ .connected || op.userId ≠ some u then (s, .error .notConnected)
    else if (s.accounts.pendingRemovals.lookup u).isSome then (s, .error .operationConflict)
    else if (s.accounts.links.lookup (u, op.email)).any fun g => g ≠ generation && previous ≠ some g then
      (s, .error .generationMismatch)
    else
      let accounts := { s.accounts with links := s.accounts.links.insert (u, op.email) generation }
      let accounts := if op.committed then accounts
        else accounts.modify id fun op => { op with committed := true, endedAt := some s.now }
      (persist { s with accounts := accounts }, .ok ())

/-- The sign-in or the link that `credentials` is asked for. -/
inductive Owner
  | operation (id : OpId)
  | link (generation : Generation) (email : Address)

/-- The address of `credentials`, checked before Bridge is asked. -/
def credentialsOf (u : UserId) : Owner → Except WorkerError Address
  | .operation id =>
    match s.accounts.operations.lookup id with
    | none => .error .notFound
    | some op =>
      if !s.admits cfg op then .error .maintenanceBusy
      else if op.state ≠ .connected || op.userId ≠ some u then .error .notConnected
      else if (s.accounts.pendingRemovals.lookup u).isSome then .error .notConnected
      else .ok op.email
  | .link generation email =>
    if !s.admits cfg none then .error .maintenanceBusy
    else match s.accounts.links.lookup (u, email) with
      | none => .error .notFound
      | some g =>
        if g ≠ generation then .error .generationMismatch
        else if (s.accounts.pendingRemovals.lookup u).isSome then .error .notConnected
        else .ok email

/-- `credentials`, up to the native calls that read the user and its password -/
def credentials (u : UserId) (owner : Owner) : State × Except WorkerError Address :=
  match s.credentialsOf cfg u owner with
  | .error e => (s, .error e)
  | .ok email => match s.ensureStarted n with
    | (s, .error e) => (s, .error e)
    | (s, .ok ()) => (s, .ok email)

/-- What `remove_user` answers. -/
inductive Removed
  | removing | removed | unlinked
  deriving DecidableEq

def removalState (a : Accounts) (u : UserId) : Removed := if (a.pendingRemovals.lookup u).isSome then .removing else .removed

/-- `remove_user` -/
def removeUser (u : UserId) (generation : Generation) (email : Address) : State × Except WorkerError Removed :=
  if !s.admits cfg none then (s, .error .maintenanceBusy)
  else match s.accounts.links.lookup (u, email) with
    | none => (s, .ok (removalState s.accounts u))
    | some g =>
      if g ≠ generation then (s, .error .generationMismatch)
      else
        let others := s.accounts.links.entries.any fun e => e.1.1 = u && e.1 ≠ (u, email)
        match if others then (s, .ok ()) else s.ensureStarted n with
        | (s, .error e) => (s, .error e)
        | (s, .ok ()) =>
          let accounts := { s.accounts with links := s.accounts.links.erase (u, email) }
          if others then (persist { s with accounts := accounts }, .ok .unlinked)
          else if (accounts.handOver u none).2 then
            (persist { s with accounts := (accounts.handOver u none).1 }, .ok .unlinked)
          else
            let accounts := if (accounts.pendingRemovals.lookup u).isSome then accounts
              else accounts.beginRemoval s.now u .remove
            (persist { s with accounts := accounts }, .ok (removalState accounts u))

/-! ## The snapshot gate and send leases -/

/-- `_holder_live` -/
def holderLive : Bool :=
  s.accounts.slot.isSome &&
    s.accounts.holder.all fun op => op.state.active && decide (s.now < op.createdAt + cfg.ttlSeconds)

/-- `_login_active` -/
def loginActive : Bool :=
  s.holderLive cfg || s.recovering || (s.accounts.operations.entries.any fun e => s.finalizing cfg e.2) ||
    s.accounts.removingAttempt

/-- `_settle_holder` -/
def settleHolder : Accounts :=
  match s.accounts.slot, s.accounts.holder with
  | some id, some op =>
    let a := if op.state.active then s.accounts.stopAttempt s.now id .expired none else s.accounts
    a.modify id fun op => if op.state.terminal then { op with reconcile := true } else op
  | _, _ => s.accounts

/-- `acquire_send_lease` -/
def acquireSendLease (lease : LeaseId) : State × Except WorkerError Unit :=
  if s.cancelledLeases.contains lease then
    ({ s with cancelledLeases := s.cancelledLeases.erase lease }, .error .leaseCancelled)
  else if s.sendLeases.contains lease then (s, .ok ())
  else if !s.admits cfg none then (s, .error .maintenanceBusy)
  else ({ s with sendLeases := lease :: s.sendLeases }, .ok ())

/-- `release_send_lease` -/
def releaseSendLease (lease : LeaseId) : State :=
  if s.sendLeases.contains lease then { s with sendLeases := s.sendLeases.filter (· ≠ lease) }
  else
    let cancelled := s.cancelledLeases.filter (· ≠ lease) ++ [lease]
    { s with cancelledLeases := cancelled.drop (cancelled.length - CANCELLED_LEASES_KEPT) }

/-- A `snapshot_begin` returns normally. -/
def grant (id : SnapshotId) : State :=
  { s with granted := (s.granted.filter (·.id = id)).or (some ⟨id, s.accounts.links, s.journal, s.bridge.epoch⟩) }

/-- `snapshot_begin` once sends and sign-ins are drained -/
def stopForSnapshot (id : SnapshotId) : State × Except WorkerError Unit :=
  let s := { s with accounts := s.settleHolder }
  if s.started then
    let (bridge, stopped) := s.bridge.shutdown n
    if stopped then (grant (persist { s with bridge := bridge, started := false }) id, .ok ())
    else ({ s with bridge := bridge, nativeLost := true, snapshot := none }, .error .unavailable)
  else (s.persist.grant id, .ok ())

/-- One round of `_wait_drained` for a `snapshot_begin`, which goes on, gives up or waits again. -/
def drain (w : Waiter) : State × Except WorkerError Unit :=
  if s.snapshot.all fun gate => gate.id ≠ w.id then (s, .error .operationConflict)
  else if s.sendLeases.isEmpty && !s.loginActive cfg then s.stopForSnapshot n w.id
  else if w.deadline ≤ s.now then ({ s with snapshot := none }, .error .snapshotBusy)
  else ({ s with waiters := s.waiters ++ [w] }, .ok ())

/-- `snapshot_begin` -/
def snapshotBegin (id : SnapshotId) : State × Except WorkerError Unit :=
  let gate : Gate := { id := id, expiresAt := s.now + cfg.snapshotTtlSeconds }
  match s.snapshot with
  | some held =>
    if held.id = id then (s.grant id, .ok ())
    else if s.now < held.expiresAt then (s, .error .operationConflict)
    else (grant { s with snapshot := some gate } id, .ok ())
  | none =>
    drain cfg { s with snapshot := some gate } n { id := id, deadline := s.now + cfg.snapshotWaitSeconds }

/-- `_open_gate` -/
def openGate : State :=
  let s := { s with snapshot := none, granted := none }
  if s.needsBridge then
    match s.ensureStarted n with
    | (s, .ok ()) => s.persist
    | (s, .error _) => persist { s with timers := { s.timers with nextStartAt := s.now + cfg.recoverySeconds } }
  else s.persist

/-- `snapshot_end`; the answer is `ended`. -/
def snapshotEnd (id : SnapshotId) : State × Except WorkerError Bool :=
  match s.snapshot with
  | none => (s, .ok false)
  | some gate => if gate.id = id then (s.openGate cfg n, .ok true) else (s, .error .operationConflict)

/-- `snapshot_renew` -/
def snapshotRenew (id : SnapshotId) : State × Except WorkerError Unit :=
  match s.snapshot with
  | none => (s, .error .operationConflict)
  | some gate =>
    if gate.id = id then
      ({ s with snapshot := some { gate with expiresAt := s.now + cfg.snapshotTtlSeconds } }, .ok ())
    else (s, .error .operationConflict)

/-- The slot's operation ended so long ago that Bridge is restarted for it. -/
def holderDue : Bool :=
  s.accounts.holder.any fun op =>
    op.state.terminal && op.endedAt.any (fun t => t + cfg.recoverySeconds ≤ s.now) &&
      op.userId.all fun u => (s.accounts.pendingRemovals.lookup u).isNone

def markHolder : State :=
  match s.accounts.slot with
  | none => s
  | some id => { s with accounts := s.accounts.modify id fun op => { op with reconcile := true } }

/-- `tick`: a Bridge that died, and one that is not up -/
def tickBridge (recover : Bool) : State × Bool :=
  if s.started && !s.alive then
    if s.needsBridge || s.accounts.slot.isSome then (s, true) else ({ s with started := false, nativeLost := false }, recover)
  else if !s.started && s.needsBridge && decide (s.timers.nextStartAt ≤ s.now) then
    match s.ensureStarted n with
    | (s, .ok ()) => (s, recover)
    | (s, .error _) => ({ s with timers := { s.timers with nextStartAt := s.now + cfg.recoverySeconds } }, recover)
  else (s, recover)

/-- `tick`: a reconciliation that failed is tried again. -/
def tickReconcile (recover : Bool) : State × Bool :=
  if !recover && s.alive && s.accounts.reconcilePending && decide (s.timers.nextReconcileAt ≤ s.now) then
    let (s, reconciled) := s.reconcileAll n
    (s, !reconciled && decide (MAX_RECONCILE_FAILURES ≤ s.timers.reconcileFailures))
  else (s, recover)

/-- `tick`: the removals, and the slot's operation -/
def tickRemovals : State × Bool :=
  let removals := s.accounts.removalTimers s.now (decide (s.timers.nextRecoveryAt ≤ s.now)) fun u => s.list n (.timer u)
  let s := { s with accounts := removals.1 }
  (if s.holderDue cfg then s.markHolder else s, s.holderDue cfg || removals.2)

/-- `tick`, while Bridge is not being recovered -/
def tickChecks : State × Bool :=
  let removals := s.tickRemovals cfg n
  let checked := removals.1.tickBridge cfg n removals.2
  let tried := checked.1.tickReconcile n checked.2
  (tried.1, tried.2 && decide (s.timers.nextRecoveryAt ≤ s.now))

/-- `tick`: attempts past their lifetime -/
def tickExpire : State := { s with accounts := s.accounts.expire s.now cfg.ttlSeconds }

/-- `tick` with the gate open -/
def tickOpen : State :=
  let s := s.tickExpire cfg
  let checked := if s.recovering then (s, false) else s.tickChecks cfg n
  let s := checked.1
  persist { s with
    accounts := s.accounts.prune s.now cfg.ttlSeconds, recovering := s.recovering || checked.2 }

/-- `tick`: the state in which it goes on, unless a snapshot holds the gate -/
def tickGate : Option State :=
  match s.snapshot with
  | none => some s
  | some gate => if s.now < gate.expiresAt then none else some (s.openGate cfg n)

/-- `tick`, up to the `_recover` it may go on with -/
def tick : State := ((s.tickGate cfg n).map fun s => s.tickOpen cfg n).getD s

/-- `_recover`, without the lock -/
def recoverNative : State :=
  let streak := if s.timers.lastRecoveryAt.any fun t => s.now < t + RECOVERY_BACKOFF_CAP
    then s.timers.recoveryStreak + 1 else 0
  let (bridge, ok) := s.bridge.recover n
  { s with
    bridge := bridge
    recovery := some ok
    timers := { s.timers with
      recoveryStreak := streak
      lastRecoveryAt := some s.now
      nextRecoveryAt := s.now + min (cfg.recoverySeconds * 2 ^ streak) RECOVERY_BACKOFF_CAP } }

/-- `_recover`, once it has the lock -/
def recovered (ok : Bool) : State :=
  let s := { s with recovering := false, recovery := none, started := ok, nativeLost := false }
  if ok then (s.afterRestart n).persist
  else match s.accounts.slot with
    | none => s.persist
    | some id => persist { s with accounts := s.accounts.modify id fun op => { op with endedAt := some s.now } }

/-- `_on_event`: a login event, for the operation that holds the slot -/
def onLoginEvent (e : LoginEvent) : Accounts :=
  match s.accounts.slot, s.accounts.holder with
  | some id, some op =>
    match e with
    | .needs2fa => if op.state.active then s.accounts.modify id fun op => { op with state := .needs2fa } else s.accounts
    | .needsSecondPassword =>
      if op.state.active then s.accounts.modify id fun op => { op with state := .needsSecondPassword } else s.accounts
    | .hv => if op.state.active then s.accounts.stopAttempt s.now id .failed (some .verificationRequired) else s.accounts
    | .error code => s.accounts.onLoginError s.now id op code
    | .finished u => s.accounts.onLoginFinished s.now id op true u (n.getUser id)
    | .alreadyLoggedIn u => s.accounts.onLoginFinished s.now id op false u (n.getUser id)
  | _, _ => s.accounts

/-- What `_on_event` makes of the accounts. -/
def eventAccounts : Event → Accounts
  | .login _ e => s.onLoginEvent n e
  | .userChanged u => s.accounts.onUserChanged s.now u (s.list n (.changed u)) n.getUser
  | .streamEnded | .noKeychain => s.accounts

/-- `_on_event` -/
def onEvent (e : Event) : State :=
  persist { s with accounts := s.eventAccounts n e, nativeLost := s.nativeLost || e == .streamEnded }

/-- `boot` -/
def boot : State :=
  if s.needsBridge then
    match s.ensureStarted n with
    | (s, .ok ()) => s.persist
    | (s, .error _) => s
  else s

/-- The worker's process ends, with Bridge, and starts again from the journal. `sent` are the users whose removal the
critical section that was cut off had already asked Bridge for. -/
def restart (sent : List UserId) : State where
  accounts := s.journal.load s.now (sent ++ s.accounts.asked)
  started := false
  nativeLost := false
  recovering := false
  timers := {}
  recovery := none
  sendLeases := []
  cancelledLeases := []
  snapshot := none
  waiters := []
  granted := none
  journal := s.journal
  bridge := { s.bridge with running := false, stream := false, epoch := s.bridge.epoch + 1, queue := [] }
  waiting := []
  now := s.now
  initial := s.initial

end State

/-! ## Runs -/

inductive Label
  | start (id : OpId) (email : Address) (n : Native)
  | continueLogin (id : OpId) (challenge : OpState) (n : Native)
  | cancel (id : OpId)
  | commit (id : OpId) (u : UserId) (generation : Generation) (previous : Option Generation)
  | credentials (u : UserId) (owner : State.Owner) (n : Native)
  | remove (u : UserId) (generation : Generation) (email : Address) (n : Native)
  | acquire (lease : LeaseId)
  | release (lease : LeaseId)
  | begin (id : SnapshotId) (n : Native)
  /-- A waiting `snapshot_begin` looks again. -/
  | wake (i : Nat) (n : Native)
  | endSnapshot (id : SnapshotId) (n : Native)
  | renew (id : SnapshotId)
  | tick (n : Native)
  | recoverNative (n : Native)
  | recovered (n : Native)
  | boot (n : Native)
  | restart (sent : List UserId)
  | pass (seconds : Nat)
  /-- Login `k` of Bridge produces an event. -/
  | emit (k : Nat) (e : LoginEvent)
  /-- Bridge produces an event that is not one of a login. -/
  | report (e : Event)
  /-- The stream breaks off after `kept` of the events that wait in it. -/
  | loseStream (kept : Nat)
  | die (kept : Nat)
  /-- Bridge removed a user it was asked to remove. -/
  | gone (u : UserId)
  /-- The pump takes the next event and waits for the lock. -/
  | handOver
  /-- A waiting event gets the lock. -/
  | deliver (i : Nat) (n : Native)

namespace State

/-- An event that is not one of a login. -/
def reports : Event → Bool
  | .userChanged _ | .noKeychain => true
  | .login .. | .streamEnded => false

def handOver (s : State) : Option State :=
  match s.bridge.queue with
  | [] => none
  | e :: rest =>
    if s.waiting.any fun w => w.1 = s.bridge.epoch then none
    else some { s with bridge := { s.bridge with queue := rest }, waiting := s.waiting ++ [(s.bridge.epoch, e)] }

/-- The stream ends; its end is reported after the events that were still read. -/
def endStream (s : State) (kept : Nat) (running : Bool) : State :=
  { s with bridge := { s.bridge with
      running := running, stream := false, queue := s.bridge.queue.take kept ++ [.streamEnded] } }

end State

open State in
def step (cfg : Config) (s : State) : Label → Option State
  | .start id email n => some (s.startConnection n id email).1
  | .continueLogin id challenge n => some (s.continueConnection n id challenge).1
  | .cancel id => some (s.cancelConnection id).1
  | .commit id u generation previous => some (s.commitConnection cfg id u generation previous).1
  | .credentials u owner n => some (s.credentials cfg n u owner).1
  | .remove u generation email n => some (s.removeUser cfg n u generation email).1
  | .acquire lease => some (s.acquireSendLease cfg lease).1
  | .release lease => some (s.releaseSendLease lease)
  | .begin id n => some (s.snapshotBegin cfg n id).1
  | .wake i n => s.waiters[i]?.map fun w => (drain cfg { s with waiters := s.waiters.eraseIdx i } n w).1
  | .endSnapshot id n => some (s.snapshotEnd cfg n id).1
  | .renew id => some (s.snapshotRenew cfg id).1
  | .tick n => some (s.tick cfg n)
  | .recoverNative n => if s.recovering && s.recovery.isNone then some (s.recoverNative cfg n) else none
  | .recovered n => s.recovery.map fun ok => s.recovered n ok
  | .boot n => some (s.boot n)
  | .restart sent => some (s.restart sent)
  | .pass seconds => some { s with now := s.now + seconds }
  | .emit k e => (s.bridge.emit k e).map fun bridge => { s with bridge := bridge }
  | .report e => if s.bridge.stream && reports e then
      some { s with bridge := { s.bridge with queue := s.bridge.queue ++ [e] } } else none
  | .loseStream kept => if s.bridge.stream then some (s.endStream kept s.bridge.running) else none
  | .die kept => if s.bridge.running then
      some (if s.bridge.stream then s.endStream kept false else { s with bridge := { s.bridge with running := false } })
    else none
  | .gone u =>
    if s.bridge.running && s.accounts.asked.contains u then
      some { s with
        bridge := { s.bridge with users := s.bridge.users.erase u }
        accounts := { s.accounts with asked := s.accounts.asked.filter (· ≠ u) } }
    else none
  | .handOver => s.handOver
  | .deliver i n => s.waiting[i]?.map fun w => onEvent { s with waiting := s.waiting.eraseIdx i } n w.2

def initial (s : State) : Prop :=
  s.accounts = ⟨∅, ∅, ∅, none, []⟩ ∧ s.journal = ⟨∅, ∅, ∅⟩ ∧ s.started = false ∧ s.nativeLost = false ∧
    s.recovering = false ∧ s.recovery = none ∧ s.sendLeases = [] ∧ s.snapshot = none ∧ s.waiters = [] ∧ s.granted = none ∧
    s.bridge.running = false ∧ s.bridge.stream = false ∧ s.bridge.logins = [] ∧ s.bridge.queue = [] ∧ s.waiting = [] ∧
    s.initial = s.bridge.users

/-- A new worker, and a Bridge that holds these users. -/
def fresh (users : List UserId) : State where
  accounts := ⟨∅, ∅, ∅, none, []⟩
  started := false
  nativeLost := false
  recovering := false
  timers := {}
  recovery := none
  sendLeases := []
  cancelledLeases := []
  snapshot := none
  waiters := []
  granted := none
  journal := ⟨∅, ∅, ∅⟩
  bridge := { users := users }
  waiting := []
  now := 0
  initial := users

def system (cfg : Config) : TransitionSystem State Label where
  init := initial
  step := step cfg

theorem fresh_init {cfg : Config} {users : List UserId} : (system cfg).init (fresh users) :=
  ⟨rfl, rfl, rfl, rfl, rfl, rfl, rfl, rfl, rfl, rfl, rfl, rfl, rfl, rfl, rfl, rfl⟩

end MailExpert.ProtonWorker
