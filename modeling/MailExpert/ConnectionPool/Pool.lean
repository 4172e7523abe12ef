import MailExpert.Lib.TransitionSystem

/-!
# The connection pool

The pooled IMAP sessions of one account (`imapManager.js`): `acquirePooledClient`, `drainWaiters`, `growPool`,
`refreshReusedPooled`, `releasePooledClient`, `withFreshClient`, the idle close and `evictPool`. A pool object
outlives its place in `connectionPools`: what was begun on it ends on it.

A label is a stretch of code between two awaits. It carries what the code finds at that moment (`Moment`):
whether a rejected password holds logins back, and whether closing a session calls its close handler at once.
The handler of a session can also run at any later time (`Label.closed`).
-/

namespace MailExpert.ConnectionPool

/-- A caller in the queue, named by its arrival. -/
structure Waiter where
  id : Nat
  background : Bool
  noNewLogin : Bool
deriving DecidableEq

/-- `held`: `loginHeldBack`, for background callers or others. `emits`: the handler of a client's `close` runs
inside its `close()`. -/
structure Moment where
  held : Bool → Bool
  emits : Nat → Bool

/-- A pool object. `timers` are the armed acquire timers of its waiters. -/
structure Pool where
  clients : List Nat := []
  inUse : Finset Nat := ∅
  bgInUse : Finset Nat := ∅
  bgConnecting : Nat := 0
  waiters : List Waiter := []
  connecting : Nat := 0
  idleTimers : Finset Nat := ∅
  timers : Finset Nat := ∅
deriving DecidableEq

def backgroundPoolCap (poolSize : Nat) : Nat := if 1 < poolSize then poolSize - 1 else poolSize

namespace Pool

variable (p : Pool)

def disarmPoolIdleClose (client : Nat) : Pool := { p with idleTimers := p.idleTimers.erase client }

def armPoolIdleClose (client : Nat) : Pool := { p with idleTimers := insert client p.idleTimers }

def handOutPooled (client : Nat) (background : Bool) : Pool :=
  { p.disarmPoolIdleClose client with
    inUse := insert client p.inUse
    bgInUse := if background then insert client p.bgInUse else p.bgInUse }

def markPooledFree (client : Nat) : Pool :=
  { p with inUse := p.inUse.erase client, bgInUse := p.bgInUse.erase client }

/-- `pool.clients = pool.clients.filter(c => c !== client)` -/
def remove (client : Nat) : Pool := { p with clients := p.clients.filter (· ≠ client) }

def backgroundPoolFull (poolSize : Nat) : Bool := backgroundPoolCap poolSize ≤ p.bgInUse.card + p.bgConnecting

/-- `pool.clients.find(c => !pool.inUse.has(c))` -/
def idle : Option Nat := p.clients.find? (· ∉ p.inUse)

/-- Interactive waiters go ahead of queued background work, in order among themselves. -/
def enqueue (entry : Waiter) : Pool :=
  { p with
    waiters :=
      if entry.background then p.waiters ++ [entry]
      else p.waiters.takeWhile (!·.background) ++ entry :: p.waiters.dropWhile (!·.background)
    timers := insert entry.id p.timers }

def dequeue (id : Nat) : Pool :=
  { p with waiters := p.waiters.filter (·.id ≠ id), timers := p.timers.erase id }

def reserve (background : Bool) : Pool :=
  { p with connecting := p.connecting + 1, bgConnecting := p.bgConnecting + if background then 1 else 0 }

def unreserve (background : Bool) : Pool :=
  { p with connecting := p.connecting - 1, bgConnecting := p.bgConnecting - if background then 1 else 0 }

end Pool

/-- A session: the pool object that opened it, and whether it is neither closed nor logging out. -/
structure Session where
  pool : Nat
  isOpen : Bool
deriving DecidableEq

/-- A connection being opened for a caller. -/
structure Grow where
  caller : Nat
  pool : Nat
  background : Bool
deriving DecidableEq

/-- A session in a caller's hands; `refreshing` while its NOOP is out. -/
structure Lease where
  caller : Nat
  session : Nat
  background : Bool
  refreshing : Bool
deriving DecidableEq

structure State where
  pools : Nat → Pool
  nextPool : Nat
  /-- the account's entry of `connectionPools` -/
  current : Option Nat
  sessions : Nat → Session
  nextSession : Nat
  grows : List Grow
  leases : List Lease
  nextCaller : Nat
  /-- how often a caller's promise was resolved or rejected -/
  answers : Nat → Nat
  /-- the pools as `drainWaiters` left them -/
  drained : List Pool

namespace State

variable (s : State)

def setPool (k : Nat) (p : Pool) : State := { s with pools := Function.update s.pools k p }

/-- Resolves or rejects the promise of a caller. -/
def answer (caller : Nat) : State :=
  { s with answers := Function.update s.answers caller (s.answers caller + 1) }

/-- The caller is answered with the session, after the NOOP of `refreshReusedPooled`. -/
def handOut (k client caller : Nat) (background : Bool) : State :=
  { (s.setPool k ((s.pools k).handOutPooled client background)).answer caller with
    leases := { caller := caller, session := client, background := background, refreshing := true } :: s.leases }

/-- The synchronous part of `growPool`. -/
def growPool (k caller : Nat) (background : Bool) : State :=
  { s.setPool k ((s.pools k).reserve background) with
    grows := { caller := caller, pool := k, background := background } :: s.grows }

def dequeue (k id : Nat) : State := s.setPool k ((s.pools k).dequeue id)

variable (poolSize : Nat) (m : Moment)

/-- One round of `drainWaiters`; `none` where its loop ends. -/
def drainRound (k : Nat) : Option State :=
  let p := s.pools k
  match p.waiters with
  | [] => none
  | head :: _ =>
    if head.background && p.backgroundPoolFull poolSize then none
    else
      match p.idle with
      | some free => some ((s.dequeue k head.id).handOut k free head.id head.background)
      | none =>
        if poolSize ≤ p.clients.length + p.connecting then none
        else if head.noNewLogin || m.held head.background then
          if 0 < p.clients.length + p.connecting then
            -- the head waits for a session to be released, one behind it may log in
            (p.waiters.find? fun w => !w.noNewLogin && !m.held w.background &&
              !(w.background && p.backgroundPoolFull poolSize)).map fun entry =>
                (s.dequeue k entry.id).growPool k entry.id entry.background
          else some ((s.dequeue k head.id).answer head.id)
        else some ((s.dequeue k head.id).growPool k head.id head.background)

/-- The loop: every round takes a waiter out of the queue. -/
def drainLoop : Nat → State → Nat → State
  | 0, s, _ => s
  | n + 1, s, k =>
    match s.drainRound poolSize m k with
    | none => s
    | some t => drainLoop n t k

def drainWaiters (k : Nat) : State :=
  let t := drainLoop poolSize m (s.pools k).waiters.length s k
  { t with drained := t.pools k :: t.drained }

def closeSession (client : Nat) : State :=
  { s with sessions := Function.update s.sessions client { s.sessions client with isOpen := false } }

/-- A session is closed and leaves the pool object and those who use it. -/
def takeOut (k client : Nat) : State :=
  (s.closeSession client).setPool k (((s.pools k).markPooledFree client).remove client)

/-- The handler of a session's `close`. -/
def onClose (client : Nat) : State :=
  match s.current with
  | none => s.closeSession client
  | some k =>
    (s.setPool k ((s.pools k).disarmPoolIdleClose client)).takeOut k client |>.drainWaiters poolSize m k

/-- `client.close()` -/
def close (client : Nat) : State :=
  if m.emits client then s.onClose poolSize m client else s.closeSession client

def ensurePool : State :=
  match s.current with
  | some _ => s
  | none => { s.setPool s.nextPool {} with nextPool := s.nextPool + 1, current := some s.nextPool }

/-- What is left of `acquirePooledClient` once it has its pool object. An idle session is taken the same way
whether or not logins are held back. -/
def acquireIn (k caller : Nat) (background noNewLogin failFastWhenHeld : Bool) : State :=
  let p := s.pools k
  let loginHeld := noNewLogin || m.held background
  let backgroundFull := background && p.backgroundPoolFull poolSize
  let idle := if !backgroundFull && p.waiters.isEmpty then p.idle else none
  match idle with
  | some client => s.handOut k client caller background
  | none =>
    if loginHeld && (background || failFastWhenHeld) then s.answer caller
    else if p.waiters.isEmpty && !backgroundFull && !loginHeld && p.clients.length + p.connecting < poolSize then
      s.growPool k caller background
    else
      (s.setPool k (p.enqueue { id := caller, background := background, noNewLogin := noNewLogin })).drainWaiters
        poolSize m k

def acquirePooledClient (background noNewLogin failFastWhenHeld : Bool) : State :=
  let t := s.ensurePool
  match t.current with
  | none => t
  | some k =>
    { t with nextCaller := t.nextCaller + 1 }.acquireIn poolSize m k t.nextCaller background noNewLogin
      failFastWhenHeld

/-- The grow is over and its caller's promise is answered, whatever came of it. -/
def ungrow (g : Grow) : State :=
  { (s.setPool g.pool ((s.pools g.pool).unreserve g.background)).answer g.caller with
    grows := s.grows.erase g }

/-- The connection is open: it joins the pool object that opened it, in its caller's hands. -/
def grown (g : Grow) : State :=
  let t := s.ungrow g
  let p := t.pools g.pool
  { t.setPool g.pool ({ p with clients := p.clients ++ [t.nextSession] }.handOutPooled t.nextSession g.background) with
    sessions := Function.update t.sessions t.nextSession { pool := g.pool, isOpen := true }
    nextSession := t.nextSession + 1
    leases := { caller := g.caller, session := t.nextSession, background := g.background, refreshing := false } ::
      t.leases }

def endLease (l : Lease) : State := { s with leases := s.leases.erase l }

def releasePooledClient (client : Nat) : State :=
  match s.current with
  | none => s.close poolSize m client
  | some k =>
    let t := s.setPool k ((s.pools k).markPooledFree client)
    if client ∈ (s.pools k).clients then
      let u := t.drainWaiters poolSize m k
      if client ∈ (u.pools k).inUse then u
      else u.setPool k ((u.pools k).armPoolIdleClose client)
    else t.close poolSize m client

/-- The `catch` of `withFreshClient`, then its `finally`. The session is closed at the end of the same stretch;
nothing before that asks whether it is open. -/
def failPooled (client : Nat) : State :=
  match s.current with
  | none => s.releasePooledClient poolSize m client
  | some k => ((s.takeOut k client).drainWaiters poolSize m k).releasePooledClient poolSize m client

/-- The `catch` of `refreshReusedPooled`, on the pool object that handed the session out. -/
def refreshFailed (k client : Nat) : State :=
  (((s.setPool k ((s.pools k).disarmPoolIdleClose client)).takeOut k client).close poolSize m client).drainWaiters
    poolSize m k

def evictClients (k : Nat) : List Nat → State → State
  | [], s => s
  | c :: cs, s =>
    let t := s.setPool k ((s.pools k).disarmPoolIdleClose c)
    evictClients k cs (if c ∈ (t.pools k).inUse then t else t.close poolSize m c)

def rejectWaiters (k : Nat) : List Waiter → State → State
  | [], s => s
  | w :: ws, s => rejectWaiters k ws ((s.dequeue k w.id).answer w.id)

def evictPool : State :=
  match s.current with
  | none => s
  | some k =>
    let t := evictClients poolSize m k (s.pools k).clients s
    { rejectWaiters k (t.pools k).waiters t with current := none }

end State

inductive Label
  | acquire (background noNewLogin failFastWhenHeld : Bool) (m : Moment)
  | grown (g : Grow)
  | growFailed (g : Grow)
  | refreshed (l : Lease)
  | refreshFailed (l : Lease) (m : Moment)
  | finished (l : Lease) (m : Moment)
  | failed (l : Lease) (m : Moment)
  | closed (client : Nat) (m : Moment)
  | timeout (k id : Nat)
  | idleClose (k client : Nat)
  | evict (m : Moment)

def State.step (poolSize : Nat) (s : State) : Label → Option State
  | .acquire background noNewLogin failFastWhenHeld m =>
    some (s.acquirePooledClient poolSize m background noNewLogin failFastWhenHeld)
  | .grown g => if g ∈ s.grows then some (s.grown g) else none
  | .growFailed g => if g ∈ s.grows then some (s.ungrow g) else none
  | .refreshed l =>
    if l ∈ s.leases ∧ l.refreshing then
      some { s.endLease l with leases := { l with refreshing := false } :: s.leases.erase l }
    else none
  | .refreshFailed l m =>
    if l ∈ s.leases ∧ l.refreshing then
      some ((s.endLease l).refreshFailed poolSize m (s.sessions l.session).pool l.session)
    else none
  | .finished l m =>
    if l ∈ s.leases ∧ l.refreshing = false then
      some ((s.endLease l).releasePooledClient poolSize m l.session)
    else none
  | .failed l m =>
    if l ∈ s.leases ∧ l.refreshing = false then
      some ((s.endLease l).failPooled poolSize m l.session)
    else none
  | .closed client m => if client < s.nextSession then some (s.onClose poolSize m client) else none
  | .timeout k id => if id ∈ (s.pools k).timers then some ((s.dequeue k id).answer id) else none
  | .idleClose k client =>
    if client ∈ (s.pools k).idleTimers then
      let t := s.setPool k ((s.pools k).disarmPoolIdleClose client)
      if client ∈ (s.pools k).inUse ∨ client ∉ (s.pools k).clients then some t
      -- the session logs out
      else some ((t.closeSession client).setPool k ((t.pools k).remove client))
    else none
  | .evict m => some (s.evictPool poolSize m)

def empty : State where
  pools _ := {}
  nextPool := 0
  current := none
  sessions _ := { pool := 0, isOpen := false }
  nextSession := 0
  grows := []
  leases := []
  nextCaller := 0
  answers _ := 0
  drained := []

def system (poolSize : Nat) : TransitionSystem State Label where
  init s := s = empty
  step := State.step poolSize

end MailExpert.ConnectionPool
