import MailExpert.Expunge.Intent
import MailExpert.MoveQueue.System

/-!
# Deleting forever beside the move queue

`services/expungeClaims.js` and the delete routes of `routes/mail.js`. The columns `expunge_claim` and
`expunge_claimed_at` of a message row are its entry of `State.claims`; `Message.expungeClaim` says that the
first is not null. A step of a request is one statement, or the answer of the mail server.

A move that a delete request makes is a step of the move queue like every other.
-/

namespace MailExpert.Expunge

open MoveQueue (Message)

def EXPUNGE_CLAIM_LEASE_MS : Nat := 10 * 60 * 1000

structure Claim where
  token : Nat
  claimedAt : Nat
deriving DecidableEq

/-- Rows of one account that were read in one folder: their ids and uids. -/
structure Group where
  folder : String
  rows : List (Nat × Int)
deriving DecidableEq

inductive Stage
  /-- the mail server deletes -/
  | deleting
  /-- it deleted these uids -/
  | deleted (succeeded : List Int)
  /-- the claim on these rows is to be released -/
  | releasing (keep : List Nat)
deriving DecidableEq

/-- An `expungeClaimed` that has its claim; `still` are the rows it claimed. -/
structure Call where
  token : Nat
  folder : String
  still : List (Nat × Int)
  stage : Stage
deriving DecidableEq

/-- A delete request. `read` are the rows as its `SELECT` found them, `todo` those of the accounts it has not
come to, `groups` what it has yet to delete forever of the account it is at. -/
structure Request where
  intent : Intent
  bulk : Bool
  read : List (Nat × Message)
  todo : List (Nat × Message)
  groups : List Group := []
  call : Option Call := none

/-- A row that was removed as deleted forever. -/
structure Removal where
  request : Nat
  id : Nat
  folder : String
  uid : Int
deriving DecidableEq

/-- `lookups` and `removals` keep what the requests found of the folders, and what they removed. -/
structure State where
  queue : MoveQueue.State
  claims : Table Nat Claim
  nextToken : Nat
  requests : List Request
  lookups : List (Nat × Lookup)
  removals : List Removal

inductive Label
  | queue (l : MoveQueue.Label)
  | request (body : Body) (bulk : Bool) (id : Nat)
  | lookup (r account : Nat) (lk : Lookup)
  | claim (r now : Nat)
  | answer (r : Nat) (succeeded : Option (List Int))
  | finish (r : Nat)
  | release (r : Nat)
  | giveUp (r : Nat)
  | sweep (now : Nat)
  | restart

/-- The rows grouped by folder, in the order the folders come first. -/
def byFolder (rows : List (Nat × Message)) : List Group :=
  (rows.map (·.2.folder)).dedup.map fun folder =>
    { folder := folder
      rows := (rows.filter (·.2.folder = folder)).map fun e => (e.1, e.2.uid) }

namespace State

variable (s : State)

def messages : Table Nat Message := s.queue.db.messages

def setMessages (messages : Table Nat Message) (claims : Table Nat Claim) : State :=
  { s with queue := { s.queue with db := { s.queue.db with messages := messages } }, claims := claims }

def setRequest (r : Nat) (q : Request) : State := { s with requests := s.requests.set r q }

/-! ## `services/expungeClaims.js` -/

/-- The `WHERE` clause of `claimForExpunge`. -/
def claimable (g : Group) (id : Nat) (m : Message) : Bool :=
  (id, m.uid) ∈ g.rows ∧ m.folder = g.folder ∧ ¬m.expungeClaim

def claimForExpunge (g : Group) (now : Nat) : State × List Nat :=
  let rows := s.messages.select (claimable g)
  ({ s.setMessages (Table.update s.messages (claimable g) fun _ m => { m with expungeClaim := true })
      (Table.insertAll s.claims (rows.map fun e => (e.1, { token := s.nextToken, claimedAt := now }))) with
    nextToken := s.nextToken + 1 },
    rows.map (·.1))

def holds (token id : Nat) : Bool := (s.claims.lookup id).any (·.token = token)

/-- The rows that `finishExpunge` removes. -/
def removable (token : Nat) (folder : String) (rows : List (Nat × Int)) (id : Nat) (m : Message) : Bool :=
  (id, m.uid) ∈ rows ∧ m.folder = folder ∧ s.holds token id

def finishExpunge (token : Nat) (folder : String) (rows : List (Nat × Int)) : State × List (Nat × Message) :=
  let removed := s.messages.select (s.removable token folder rows)
  (s.setMessages (s.messages.delete (s.removable token folder rows))
      (s.claims.delete fun id _ => id ∈ removed.map (·.1)),
    removed)

/-- The claims of some rows go. -/
def unclaim (gone : Nat → Bool) : State :=
  s.setMessages (Table.update s.messages (fun id _ => gone id) fun _ m => { m with expungeClaim := false })
    (s.claims.delete fun id _ => gone id)

def releaseExpungeClaim (token : Nat) (ids : List Nat) : State :=
  s.unclaim fun id => id ∈ ids ∧ s.holds token id

def releaseStaleExpungeClaims (leaseMs now : Nat) : State :=
  s.unclaim fun id => (s.claims.lookup id).any (·.claimedAt + leaseMs ≤ now)

/-- `SELECT … FROM messages WHERE id = ANY(ids)`. -/
def readRows (ids : List Nat) : List (Nat × Message) := s.messages.select fun id _ => id ∈ ids

def requested (body : Body) (bulk : Bool) (id : Nat) : Option State :=
  (if bulk then bulkIds body else some [id]).map fun ids => { s with
    requests := s.requests ++
      [{ intent := deleteIntent body bulk, bulk := bulk, read := s.readRows ids, todo := s.readRows ids }] }

/-- The request comes to an account: its folders are looked up and its rows told apart. -/
def lookup (r account : Nat) (lk : Lookup) (q : Request) : State :=
  let msgs := q.todo.filter (·.2.account = account)
  { s.setRequest r { q with
      todo := q.todo.filter (·.2.account ≠ account)
      groups := byFolder (expungeNow lk q.intent q.bulk msgs) } with
    lookups := (r, lk) :: s.lookups }

/-- `expungeClaimed` up to the server delete: with nothing claimed there is none. -/
def claim (r now : Nat) (q : Request) (g : Group) (rest : List Group) : State :=
  let (t, claimed) := s.claimForExpunge g now
  let still := g.rows.filter (·.1 ∈ claimed)
  t.setRequest r { q with
    groups := rest
    call :=
      if still = [] then none
      else some { token := s.nextToken, folder := g.folder, still := still, stage := .deleting } }

/-- The server delete ended: with the uids it deleted, or busy or in an error. -/
def answer (r : Nat) (q : Request) (c : Call) (succeeded : Option (List Int)) : State :=
  let stage : Stage := match succeeded with
    | some uids => .deleted uids
    | none => .releasing (c.still.map (·.1))
  s.setRequest r { q with call := some { c with stage := stage } }

def finish (r : Nat) (q : Request) (c : Call) (succeeded : List Int) : State :=
  let (t, removed) := s.finishExpunge c.token c.folder (c.still.filter (·.2 ∈ succeeded))
  { t.setRequest r { q with
      call := some { c with
        stage := .releasing ((c.still.map (·.1)).filter (· ∉ removed.map (·.1))) } } with
    removals := removed.map (fun e => { request := r, id := e.1, folder := e.2.folder, uid := e.2.uid }) ++
      s.removals }

def known (id : Nat) : Bool := s.requests.any fun q => q.read.any (·.1 = id)

/-- A new row is not claimed, and its id is a new UUID. -/
def admits : MoveQueue.Label → Bool
  | .syncInsert id m => !m.expungeClaim && !s.known id
  | _ => true

/-- A row that goes takes its claim along. -/
def queueStep (l : MoveQueue.Label) : Option State :=
  if s.admits l then
    (MoveQueue.step s.queue l).map fun queue => { s with
      queue := queue
      claims := s.claims.delete fun id _ => (queue.db.messages.lookup id).isNone }
  else none

def step : Label → Option State
  | .queue l => s.queueStep l
  | .request body bulk id => s.requested body bulk id
  | .lookup r account lk => do
    let q ← s.requests[r]?
    if q.call = none ∧ q.groups = [] then some (s.lookup r account lk q) else none
  | .claim r now => do
    let q ← s.requests[r]?
    match q.call, q.groups with
    | none, g :: rest => some (s.claim r now q g rest)
    | _, _ => none
  | .answer r succeeded => do
    let q ← s.requests[r]?
    let c ← q.call
    if c.stage = .deleting then some (s.answer r q c succeeded) else none
  | .finish r => do
    let q ← s.requests[r]?
    let c ← q.call
    match c.stage with
    | .deleted succeeded => some (s.finish r q c succeeded)
    | _ => none
  | .release r => do
    let q ← s.requests[r]?
    let c ← q.call
    match c.stage with
    | .releasing keep => some ((s.releaseExpungeClaim c.token keep).setRequest r { q with call := none })
    | _ => none
  -- a busy mailbox or an error ends the account or the whole request
  | .giveUp r => do
    let q ← s.requests[r]?
    if q.call = none then some (s.setRequest r { q with groups := [] }) else none
  | .sweep now => some (s.releaseStaleExpungeClaims EXPUNGE_CLAIM_LEASE_MS now)
  -- the process stopped, and `resume` releases every claim before the next request
  | .restart =>
    some { s.unclaim (fun _ => true) with
      requests := s.requests.map fun q => { q with todo := [], groups := [], call := none } }

end State

/-- A mailbox with letters at their server locations, and no request. -/
def Initial (s : State) : Prop :=
  MoveQueue.Initial s.queue ∧ (∀ id m, s.messages.lookup id = some m → m.expungeClaim = false) ∧
    s.claims = ∅ ∧ s.requests = [] ∧ s.lookups = [] ∧ s.removals = []

def system : TransitionSystem State Label where
  init := Initial
  step := State.step

/-- A server delete ends within the lease of its claim: no sweep finds a stale claim in use. -/
def prompt (s : State) : Label → Bool
  | .sweep now => s.claims.entries.all fun e =>
      decide (now < e.2.claimedAt + EXPUNGE_CLAIM_LEASE_MS) ||
        s.requests.all fun q => q.call.all fun c => decide (c.token ≠ e.2.token)
  | _ => true

end MailExpert.Expunge
