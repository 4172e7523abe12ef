import MailExpert.Lib.Table

/-!
# The accounts of the Proton worker

What `deploy/proton-worker/controller.py` keeps about sign-ins and the users of the native Bridge: its operations, one
link per user and address, the removals it still waits for, and the login slot. The methods below are the controller's
own, less their native calls: what Bridge answered is an argument, `none` for a call that failed. Calls whose answer the
controller drops (`abort`, `set_split`, `remove_user`) leave no trace but `asked`.
-/

namespace MailExpert.ProtonWorker

abbrev OpId := String
abbrev UserId := String

/-- An address in lower case, as the links are keyed. -/
abbrev Address := String

abbrev Generation := String

def REMOVAL_RETRY_SECONDS : Nat := 120
def MAX_REMOVAL_RECOVERIES : Nat := 2

inductive OpState
  | starting | authenticating | needs2fa | needsSecondPassword | checking | connected | failed | cancelled | expired
  deriving DecidableEq

/-- `ACTIVE_STATES` -/
def OpState.active : OpState → Bool
  | .starting | .authenticating | .needs2fa | .needsSecondPassword | .checking => true
  | .connected | .failed | .cancelled | .expired => false

/-- `TERMINAL_STATES` -/
def OpState.terminal : OpState → Bool
  | .connected | .failed | .cancelled | .expired => true
  | .starting | .authenticating | .needs2fa | .needsSecondPassword | .checking => false

inductive ErrorCode
  | workerUnavailable | verificationRequired | invalidChallenge | invalidCredentials | loginFailed | addressMismatch
  deriving DecidableEq

/-- The codes of a native login error (`native.py`). -/
inductive NativeCode
  | badPassword | freeUser | connection | tfaError | tfaAbort | twoPasswordsError | twoPasswordsAbort | verification | unknown
  deriving DecidableEq

/-- `ERROR_CODES.get(code, 'login_failed')` -/
def NativeCode.errorCode : NativeCode → ErrorCode
  | .badPassword => .invalidCredentials
  | .verification => .verificationRequired
  | _ => .loginFailed

/-- The state that a code of `RETRYABLE_ERRORS` puts the operation back into. -/
def NativeCode.retryable? : NativeCode → Option OpState
  | .tfaError => some .needs2fa
  | .twoPasswordsError => some .needsSecondPassword
  | _ => none

structure Operation where
  email : Address
  state : OpState := .authenticating
  userId : Option UserId := none
  createdByAttempt : Bool := false
  errorCode : Option ErrorCode := none
  createdAt : Nat
  endedAt : Option Nat := none
  committed : Bool := false
  preexisting : List UserId := []
  reconcile : Bool := false
  splitRequested : Bool := false

inductive Reason
  | attempt | remove
  deriving DecidableEq

structure Removal where
  reason : Reason
  since : Nat
  recoveries : Nat := 0
  stuck : Bool := false

/-- A user as Bridge answers `GetUser`; `connected` is its state `CONNECTED`. -/
structure User where
  id : UserId
  addresses : List Address
  connected : Bool
  splitMode : Bool

structure Accounts where
  operations : Table OpId Operation
  links : Table (UserId × Address) Generation
  pendingRemovals : Table UserId Removal
  slot : Option OpId
  /-- The users that Bridge was asked to remove. -/
  asked : List UserId

namespace Accounts

variable (a : Accounts) (now : Nat)

def modify (id : OpId) (f : Operation → Operation) : Accounts := { a with operations := a.operations.modify id f }

/-- `self.operations.get(self.slot)` -/
def holder : Option Operation := a.slot.bind a.operations.lookup

def linked (u : UserId) : Bool := a.links.entries.any fun e => e.1.1 == u

/-- `_reconcile_pending` -/
def reconcilePending : Bool := a.operations.entries.any fun e => e.2.reconcile

/-- A removal that an attempt left is under way. -/
def removingAttempt : Bool := a.pendingRemovals.entries.any fun e => e.2.reason = .attempt && !e.2.stuck

/-- `_end` -/
def endOp (id : OpId) (state : OpState) (code : Option ErrorCode) : Accounts :=
  a.modify id fun op => { op with state := state, errorCode := code, endedAt := some now }

/-- `_release` -/
def release (id : OpId) : Accounts := if a.slot = some id then { a with slot := none } else a

/-- A live attempt that signed the user in, and is not committed yet. -/
def isHeir (u : UserId) (ended : Option OpId) (id : OpId) (op : Operation) : Bool :=
  some id ≠ ended && op.userId = some u && !op.committed && (op.state.active || op.state = .connected)

/-- `_hand_over` -/
def handOver (u : UserId) (ended : Option OpId) : Accounts × Bool :=
  ({ a with operations := a.operations.update (isHeir u ended) fun _ op => { op with createdByAttempt := true } },
    a.operations.entries.any fun e => isHeir u ended e.1 e.2)

def setRemoval (u : UserId) (item : Removal) : Accounts :=
  { a with pendingRemovals := a.pendingRemovals.insert u item }

/-- `_begin_removal` -/
def beginRemoval (u : UserId) (reason : Reason) : Accounts :=
  let item : Removal := match a.pendingRemovals.lookup u with
    | none => { reason := reason, since := now }
    | some item => { item with since := now, reason := if reason = .remove then .remove else item.reason }
  { a.setRemoval u item with asked := u :: a.asked }

/-- `_drop_attempt_user` -/
def dropAttemptUser (id : OpId) : Accounts :=
  match a.operations.lookup id with
  | none => a
  | some op =>
    match op.createdByAttempt, op.userId with
    | true, some u =>
      if a.linked u then a
      else if (a.handOver u (some id)).2 then (a.handOver u (some id)).1
      else (a.handOver u (some id)).1.beginRemoval now u .attempt
    | _, _ => a

/-- `_stop_attempt` -/
def stopAttempt (id : OpId) (state : OpState) (code : Option ErrorCode) : Accounts :=
  match a.operations.lookup id with
  | none => a
  | some op =>
    if op.state = .checking then (((a.endOp now id state code).dropAttemptUser now id).release id)
    else a.endOp now id state code

/-- `_on_login_error` of the operation `id` that holds the slot -/
def onLoginError (id : OpId) (op : Operation) (code : NativeCode) : Accounts :=
  match code.retryable? with
  | some state =>
    if op.state.active then a.modify id fun op => { op with state := state, errorCode := some .invalidChallenge } else a
  | none =>
    (if op.state.active then a.endOp now id .failed (some code.errorCode) else a).release id

/-- `_owns` -/
def owns (user : User) (u : UserId) (email : Address) : Bool := user.id = u && user.addresses.contains email

/-- `_reconcile` -/
def reconcile (id : OpId) (user? : Option User) : Accounts :=
  match a.operations.lookup id, user? with
  | some op, some user =>
    if !op.userId.any (owns user · op.email) then
      ((a.endOp now id .failed (some .addressMismatch)).dropAttemptUser now id).release id
    else if !user.connected then a
    else if user.splitMode then
      (a.modify id fun op => { op with state := .connected, errorCode := none }).release id
    else a.modify id fun op => { op with splitRequested := true }
  | _, _ => a

/-- `_on_login_finished` of the operation `id` that holds the slot; `kind` tells `finished` from `already_logged_in`. -/
def onLoginFinished (id : OpId) (op : Operation) (finished : Bool) (u : UserId) (user? : Option User) : Accounts :=
  if u = "" then a
  else
    let a := a.modify id fun op =>
      { op with userId := some u, createdByAttempt := finished && !op.preexisting.contains u }
    if op.state.active then (a.modify id fun op => { op with state := .checking }).reconcile now id user?
    else (a.dropAttemptUser now id).release id

/-- `_on_user_changed` -/
def onUserChanged (u : UserId) (users? : Option (List UserId)) (getUser : OpId → Option User) : Accounts :=
  let a := if (a.pendingRemovals.lookup u).isSome && users?.any fun users => !users.contains u
    then { a with pendingRemovals := a.pendingRemovals.erase u } else a
  a.operations.keys.foldl (fun a id => match a.operations.lookup id with
    | some op => if op.state = .checking && op.userId = some u then a.reconcile now id (getUser id) else a
    | none => a) a

/-- `_retry_removal` -/
def retryRemoval (u : UserId) (users? : Option (List UserId)) : Accounts :=
  match a.pendingRemovals.lookup u, users? with
  | some item, some users =>
    if users.contains u then a.beginRemoval now u item.reason
    else { a with pendingRemovals := a.pendingRemovals.erase u }
  | _, _ => a

/-- The users that `_reconcile_orphans` leaves alone. -/
def known (id : OpId) (op : Operation) (u : UserId) : Bool :=
  op.preexisting.contains u || a.linked u || (a.pendingRemovals.lookup u).isSome ||
    a.operations.entries.any fun e =>
      e.1 ≠ id && e.2.userId = some u && (e.2.state = .connected || e.2.state = .checking)

/-- `_reconcile_orphans` -/
def reconcileOrphans (id : OpId) (users? : Option (List UserId)) : Accounts × Bool :=
  match a.operations.lookup id, users? with
  | some op, some users =>
    (((users.filter fun u => !a.known id op u).foldl (fun a u => a.beginRemoval now u .attempt) a).modify id
      fun op => { op with reconcile := false }, true)
  | _, _ => (a, false)

/-- The operations loop of `_reconcile_all` -/
def reconcileMarked (lists : OpId → Option (List UserId)) : Accounts × Bool :=
  a.operations.keys.foldl (fun p id => match p.1.operations.lookup id with
    | some op =>
      if op.reconcile then
        ((p.1.reconcileOrphans now id (lists id)).1, (p.1.reconcileOrphans now id (lists id)).2 && p.2)
      else p
    | none => p) (a, true)

/-- `_reconcile_all`, less its timers -/
def reconcileAll (lists : OpId → Option (List UserId)) : Accounts × Bool :=
  let p := a.reconcileMarked now lists
  (match p.1.slot, p.1.holder with
    | _, none => if p.2 then { p.1 with slot := none } else p.1
    | none, some _ => p.1
    | some id, some op =>
      if p.2 && op.state.terminal then { p.1 with slot := none }
      else p.1.modify id fun op => { op with endedAt := some now },
    p.2)

/-- `_expire` -/
def expire (ttlSeconds : Nat) : Accounts :=
  a.operations.keys.foldl (fun a id => match a.operations.lookup id with
    | some op =>
      if op.createdAt + ttlSeconds ≤ now then
        if op.state.active then a.stopAttempt now id .expired none
        else if op.state = .connected && !op.committed then (a.endOp now id .expired none).dropAttemptUser now id
        else a
      else a
    | none => a) a

/-- `_removal_timers` -/
def removalTimers (canRecover : Bool) (lists : UserId → Option (List UserId)) : Accounts × Bool :=
  a.pendingRemovals.keys.foldl (fun p u => match p.1.pendingRemovals.lookup u with
    | none => p
    | some item =>
      if now < item.since + REMOVAL_RETRY_SECONDS then p
      else if item.reason = .attempt && !item.stuck then
        if item.recoveries < MAX_REMOVAL_RECOVERIES then
          if canRecover then
            (p.1.setRemoval u { item with recoveries := item.recoveries + 1, since := now }, true)
          else p
        else
          ((p.1.setRemoval u { item with stuck := true }).retryRemoval now u (lists u), p.2)
      else (p.1.retryRemoval now u (lists u), p.2)) (a, false)

/-- `_prune` -/
def prune (ttlSeconds : Nat) : Accounts :=
  { a with operations := a.operations.delete fun id op =>
      op.state.terminal && op.endedAt.any (fun t => t + ttlSeconds ≤ now) && a.slot ≠ some id && !op.reconcile }

end Accounts

/-- `controller.json`; what it does not hold of a row is at its default. -/
structure Journal where
  operations : Table OpId Operation
  links : Table (UserId × Address) Generation
  pendingRemovals : Table UserId Removal

def Operation.saved (op : Operation) : Operation := { op with createdAt := 0, endedAt := none, splitRequested := false }

def Removal.saved (item : Removal) : Removal := { reason := item.reason, since := 0 }

/-- What `_persist` writes. -/
def Accounts.saved (a : Accounts) : Journal where
  operations := a.operations.update (fun _ _ => true) fun _ => Operation.saved
  links := a.links
  pendingRemovals := a.pendingRemovals.update (fun _ _ => true) fun _ => Removal.saved

/-- An operation as `_load` reads it: one that was under way failed. -/
def Operation.loaded (now : Nat) (op : Operation) : Operation :=
  if op.state.active then
    { op with state := .failed, errorCode := some .workerUnavailable, reconcile := true, createdAt := now, endedAt := some now }
  else { op with createdAt := now, endedAt := some now }

/-- `_load` -/
def Journal.load (j : Journal) (now : Nat) (asked : List UserId) : Accounts where
  operations := j.operations.update (fun _ _ => true) fun _ => Operation.loaded now
  links := j.links
  pendingRemovals := j.pendingRemovals.update (fun _ _ => true) fun _ item => { reason := item.reason, since := now }
  slot := none
  asked := asked

end MailExpert.ProtonWorker
