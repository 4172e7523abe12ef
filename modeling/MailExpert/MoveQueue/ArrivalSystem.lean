import MailExpert.MoveQueue.Invariant

/-!
# Letters of pending moves arriving in their destination

The moves of one account pending at the start, the uid the server gives each letter where it
arrives, the worker that settles by the server's uid map, and the syncs that see the letters first
and call `claimArrival`. The steps on the tables are those of the move queue
(`MailExpert.MoveQueue.System`); a `claimArrival` is four of them: the check of the known rows, the
choice of a move, the settle, and the insert when it answers false.
-/

namespace MailExpert.MoveQueue.Arrival

structure Letter where
  folder : String
  messageId : Option String
  uid : Int

structure Server where
  letter : Nat → Letter
  pos : ∀ n, 0 < (letter n).uid
  distinct : ∀ {n k}, (letter n).folder = (letter k).folder → (letter n).uid = (letter k).uid → n = k

/-- How far a sync got with a letter it saw. -/
inductive Stage
  | looking             -- no row has the uid
  | chosen (n : Nat)    -- the move that expects the letter
  | claimed
  | refused             -- `claimArrival` answered false
  | inserted
deriving DecidableEq, Repr

structure State where
  queue : MoveQueue.State
  /-- `_arrivals`, by the id of the move. -/
  expected : List Nat
  /-- The syncs, by the move whose letter they saw. -/
  stages : Table Nat Stage
  /-- Ghosts: the moves pending at the start, and their rows. -/
  letters : List Nat
  moved : List Nat
  /-- Ghost: the letters whose uid a row took. -/
  taken : List Nat

inductive Label
  | worker (l : MoveQueue.Label)
  | expect (n : Nat)
  | unexpect (n : Nat)
  | settle (n : Nat) (store : Store) (now : Nat)
  | arrive (k : Nat)
  | choose (k : Nat)
  | settleArrival (k : Nat) (store : Store) (now : Nat)
  | insert (k id now : Nat)

variable (server : Server) (account : Nat)

/-- `expectsArrival`. -/
def expectsArrival (s : State) (letter : Letter) : Bool :=
  letter.messageId.isSome ∧ s.expected.any fun n =>
    (server.letter n).folder = letter.folder ∧ (server.letter n).messageId = letter.messageId

/-- The oldest move in flight that expects the letter. -/
def expectedMove (db : Db) (letter : Letter) : Option Nat :=
  ((db.moves.select fun _ mv => mv.account = account ∧ mv.destFolder = letter.folder ∧
    mv.messageIdHeader = letter.messageId ∧ mv.state ≠ .queued).map (·.1)).min?

/-- `_settle` of the move `n` at the uid of the letter `k`: the state after it, and whether a row
or a follower took the letter. -/
def settleAt (s : State) (n k : Nat) (store : Store) (now : Nat) : Option (State × Bool) := do
  let uid := (server.letter k).uid
  let (out, _) ← s.queue.db.settle n uid none now
  let queue ← MoveQueue.step s.queue (.settle n uid none store now)
  some ({ s with
    queue, expected := s.expected.filter (· ≠ n)
    taken := if out.row.isSome then k :: s.taken else s.taken }, out.row.isSome ∨ out.next.isSome)

def State.setStage (s : State) (k : Nat) (stage : Stage) : State :=
  { s with stages := s.stages.insert k stage }

def step (s : State) : Label → Option State
  | .worker l =>
    if l.onHeldMoves then (MoveQueue.step s.queue l).map fun queue => { s with queue } else none
  | .expect n => if n ∈ s.queue.held then some { s with expected := n :: s.expected } else none
  | .unexpect n => some { s with expected := s.expected.filter (· ≠ n) }
  | .settle n store now => (settleAt server s n n store now).map (·.1)
  | .arrive k =>
    let letter := server.letter k
    if k ∈ s.letters ∧ s.stages.lookup k = none then
      some (s.setStage k (if expectsArrival server s letter ∧
        (s.queue.db.messages.select fun _ m => m.account = account ∧ m.folder = letter.folder ∧
          m.uid = letter.uid) = [] then .looking else .refused))
    else none
  | .choose k =>
    if s.stages.lookup k = some .looking then
      match expectedMove account s.queue.db (server.letter k) with
      | none => some (s.setStage k .refused)
      | some n => (MoveQueue.step s.queue (.pick n)).map fun queue =>
        { s with queue }.setStage k (.chosen n)
    else none
  | .settleArrival k store now =>
    match s.stages.lookup k with
    | some (.chosen n) =>
      match settleAt server s n k store now with
      | some (s', took) => some (s'.setStage k (if took then .claimed else .refused))
      | none => some (s.setStage k .refused)
    | _ => none
  -- A row that has the place is updated, and stays the letter's.
  | .insert k id now =>
    let letter := server.letter k
    if s.stages.lookup k = some .refused then
      if (s.queue.db.messages.select fun _ m => m.account = account ∧ m.folder = letter.folder ∧
          m.uid = letter.uid) = [] then
        (MoveQueue.step s.queue (.syncInsert id {
          account, folder := letter.folder, uid := letter.uid, messageId := letter.messageId
          syncedAt := now })).map fun queue => { s with queue }.setStage k .inserted
      else some (s.setStage k .inserted)
    else none

/-- No two rows are at one place (`UNIQUE (account_id, uid, folder)`). -/
def UniquePlaces (db : Db) : Prop :=
  ∀ r m r' m', db.messages.lookup r = some m → db.messages.lookup r' = some m' →
    m.folder = m'.folder → m.uid = m'.uid → r = r'

/-- The tables hold moves of the account, none of them with `drop_row`, and the server has a letter
for each. -/
structure Pending (db : Db) : Prop where
  owner : ∀ r m, db.messages.lookup r = some m → m.account = account
  unique : UniquePlaces db
  moves : ∀ n mv, db.moves.lookup n = some mv → mv.account = account ∧ mv.dropRow = false ∧
    (server.letter n).folder = mv.destFolder ∧ (server.letter n).messageId = mv.messageIdHeader

def State.start (queue : MoveQueue.State) (expected : List Nat) : State where
  queue
  expected
  stages := ∅
  letters := queue.db.moves.keys
  moved := queue.db.moves.entries.map (·.2.messageRowId)
  taken := []

def system : TransitionSystem State Label where
  init s := ∃ queue expected, MoveQueue.system.Reachable queue ∧ Pending server account queue.db ∧
    s = .start queue expected
  step := step server account

end MailExpert.MoveQueue.Arrival
