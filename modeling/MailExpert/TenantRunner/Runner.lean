import MailExpert.Lib.TransitionSystem
import MailExpert.Sanitizer.Patterns

/-!
# The runner of tenant operations

`createRunner` of `tenant-worker/server.mjs`. The places where `exec` awaits are steps of their own; the runner processes print, exit and fail in any
order, and a replaced one goes on doing so. Calls are numbered as they are accepted. What `JSON.parse` makes of an answer is a parameter.
-/

namespace MailExpert.TenantRunner

universe u

open Sanitizer (Text codes)

variable {β : Type u}

/-- What `JSON.parse` makes of a line behind the marker; `id` is `none` where it is no natural number. -/
inductive Parsed (β : Type u)
  | malformed
  | null
  | answer (id : Option Nat) (body : β)

/-- How a call settles: with an answer that a runner gave, or with an error. -/
inductive Outcome (β : Type u)
  | answered (runner id : Nat) (body : β)
  | exited (runner : Nat)
  | timedOut
  | thrown

inductive Ready
  | pending
  | ready
  | failed

structure Runner where
  buffer : Text
  ready : Ready

/-- What a `Promise.race` of `exec` settled with. -/
inductive Verdict (β : Type u)
  | ready
  | ends (outcome : Outcome β)

/-- A running `exec`: it waits for its runner, then for the answer to the request it has written. -/
structure Exec (β : Type u) where
  call : Nat
  runner : Nat
  id : Option Nat
  race : Option (Verdict β)
  fired : Bool

structure Written where
  call : Nat
  id : Nat
  runner : Nat
deriving DecidableEq

/-- How a call settled, and how many runners had been started by then. -/
structure Settled (β : Type u) where
  call : Nat
  outcome : Outcome β
  spawned : Nat

/-- `printed` are the answers that the runners gave. `released` counts the settled calls that `waiting` no longer counts. An answer `null` throws in
the handler, which ends the worker. -/
structure State (β : Type u) where
  child : Option Nat
  runners : List Runner
  running : Option (Exec β)
  queue : List Nat
  nextId : Nat
  waiting : Nat
  accepted : Nat
  released : Nat
  written : List Written
  printed : List (Nat × Nat × β)
  settled : List (Settled β)
  crashed : Bool

def State.start : State β where
  child := none
  runners := []
  running := none
  queue := []
  nextId := 1
  waiting := 0
  accepted := 0
  released := 0
  written := []
  printed := []
  settled := []
  crashed := false

namespace State

/-- `current`: the id of the request that waits for its answer. -/
def current (s : State β) : Option Nat := s.running.bind (·.id)

def settleRace (s : State β) (p : Exec β → Bool) (v : Verdict β) : State β :=
  { s with running := s.running.map fun e => if p e && e.race.isNone then { e with race := some v } else e }

/-- The promise `ready` of a runner settles, and with it the race that waits for it. -/
def settleReady (s : State β) (r : Nat) (outcome : Ready) (v : Verdict β) : State β :=
  match s.runners[r]? with
  | some ⟨buffer, .pending⟩ =>
    { s with runners := s.runners.set r ⟨buffer, outcome⟩ }.settleRace (fun e => e.runner = r && e.id.isNone) v
  | _ => s

def settle (s : State β) (call : Nat) (outcome : Outcome β) : State β :=
  { s with running := none, settled := s.settled ++ [⟨call, outcome, s.runners.length⟩] }

/-- `stop` -/
def stop (s : State β) : State β := { s with child := none }

end State

def MARKER : Text := codes "@@TW@@"

/-- The complete lines of a text, and the text behind the last one. -/
def takeLines : Text → List Text × Text
  | [] => ([], [])
  | 10 :: t => ([] :: (takeLines t).1, (takeLines t).2)
  | c :: t =>
    match takeLines t with
    | ([], rest) => ([], c :: rest)
    | (l :: ls, rest) => ((c :: l) :: ls, rest)

/-- `line.replace(/\r$/, '')` -/
def withoutReturn (line : Text) : Text := if line.getLast? = some 13 then line.dropLast else line

def answerOf (parse : Text → Parsed β) (line : Text) : Option (Parsed β) :=
  if MARKER.isPrefixOf (withoutReturn line) then some (parse ((withoutReturn line).drop MARKER.length)) else none

def onLine (parse : Text → Parsed β) (r : Nat) (s : State β) (line : Text) : State β :=
  if s.crashed then s
  else
    match answerOf parse line with
    | none | some .malformed | some (.answer none _) => s
    | some .null => { s with crashed := true }
    | some (.answer (some id) body) =>
      let s := { s with printed := s.printed ++ [(r, id, body)] }
      if id = 0 then s.settleReady r .ready .ready
      else if s.current = some id then s.settleRace (fun _ => true) (.ends (.answered r id body))
      else s

def onData (parse : Text → Parsed β) (s : State β) (r : Nat) (runner : Runner) (chunk : Text) : State β :=
  let (ls, rest) := takeLines (runner.buffer ++ chunk)
  ls.foldl (onLine parse r) { s with runners := s.runners.set r { runner with buffer := rest } }

/-- `gone` -/
def onGone (s : State β) (r : Nat) : State β :=
  if s.child = some r then
    let s := s.stop.settleReady r .failed (.ends (.exited r))
    if s.current.isSome then s.settleRace (fun _ => true) (.ends (.exited r)) else s
  else s.settleReady r .failed (.ends (.exited r))

/-- The race with the promise `ready` of a runner. -/
def raceOf (r : Nat) : Option Runner → Option (Verdict β)
  | some ⟨_, .ready⟩ => some .ready
  | some ⟨_, .failed⟩ => some (.ends (.exited r))
  | _ => none

/-- The start of `exec`; `spawns` says that `spawnRunner` does not throw. -/
def begin (s : State β) (spawns : Bool) (call : Nat) (queue : List Nat) : State β :=
  match s.child, spawns with
  | some c, _ => { s with queue, running := some ⟨call, c, none, raceOf c s.runners[c]?, false⟩ }
  | none, true =>
    let c := s.runners.length
    { s with queue, child := some c, runners := s.runners ++ [⟨[], .pending⟩], running := some ⟨call, c, none, none, false⟩ }
  | none, false => { s with queue }.settle call .thrown

/-- What `exec` does after an await; a deadline that has passed wins the second race. -/
def resume (s : State β) (e : Exec β) : Verdict β → State β
  | .ready =>
    let id := s.nextId
    match s.child with
    | none => { s with nextId := id + 1 }.settle e.call .thrown
    | some c =>
      { s with nextId := id + 1, written := s.written ++ [⟨e.call, id, c⟩],
               running := some { e with runner := c, id := some id, race := if e.fired then some (.ends .timedOut) else none } }
  | .ends .timedOut => s.stop.settle e.call .timedOut
  | .ends outcome => s.settle e.call outcome

inductive Label
  | call
  | begin (spawns : Bool)
  | resume
  | timer
  | data (runner : Nat) (chunk : Text)
  | gone (runner : Nat)
  | stop
  | release

def step (parse : Text → Parsed β) (maxQueue : Nat) (s : State β) (l : Label) : Option (State β) :=
  if s.crashed then none
  else
    match l with
    | .call =>
      if maxQueue ≤ s.waiting then some s
      else some { s with waiting := s.waiting + 1, accepted := s.accepted + 1, queue := s.queue ++ [s.accepted] }
    | .begin spawns =>
      match s.running, s.queue with
      | none, call :: queue => some (begin s spawns call queue)
      | _, _ => none
    | .resume => s.running.bind fun e => e.race.map (resume s e)
    | .timer =>
      s.running.bind fun e =>
        if e.fired then none
        else some { s with running := some { e with fired := true, race := e.race.or (some (.ends .timedOut)) } }
    | .data r chunk => s.runners[r]?.map fun runner => onData parse s r runner chunk
    | .gone r => if r < s.runners.length then some (onGone s r) else none
    | .stop => some s.stop
    | .release => if s.released < s.settled.length then some { s with released := s.released + 1, waiting := s.waiting - 1 } else none

def system (parse : Text → Parsed β) (maxQueue : Nat) : TransitionSystem (State β) Label where
  init s := s = .start
  step := step parse maxQueue

/-- A runner that answers the call in progress is the one that its request was written to. -/
def own (parse : Text → Parsed β) (s : State β) : Label → Prop
  | .data r chunk =>
    ∀ runner e id body, s.runners[r]? = some runner → s.running = some e → e.id = some id →
      (∃ line ∈ (takeLines (runner.buffer ++ chunk)).1, answerOf parse line = some (.answer (some id) body)) → r = e.runner
  | _ => True

end MailExpert.TenantRunner
