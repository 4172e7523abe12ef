import MailExpert.Lib.Table
import MailExpert.Lib.TransitionSystem

/-!
# The queue of preference writes

`createPrefSaveQueue` of `utils/prefSaveQueue.js`: the debounce, the saves and the two timers as labels, with what a save function does when it
is called as an input. Every value carries the `schedule` that it came with.
-/

namespace MailExpert.Preferences

/-- A value, with the number of the schedule that it came with: history. -/
structure Choice (ν : Type) where
  value : ν
  schedule : Nat
deriving DecidableEq

abbrev Prefs (κ ν : Type) := Table κ (Choice ν)

/-- What a save function does. -/
inductive Answer
  | throws
  /-- No promise. -/
  | nothing
  | promise

/-- A save whose function gave a promise. -/
structure Save (κ : Type) where
  keys : List κ
  exiting : Bool
  settled : Bool := false
  released : Bool := false
deriving DecidableEq

structure State (κ ν : Type) where
  /-- Whether the debounce runs. -/
  timer : Bool := false
  pending : Prefs κ ν := ∅
  inFlight : Int := 0
  held : Prefs κ ν := ∅
  saves : List (Save κ) := []
  /-- What was passed to a save function, in order: history. -/
  sent : List (Prefs κ ν) := []
  /-- The keys that `onError` got. -/
  errors : List (List κ) := []
  /-- What was scheduled: history. -/
  scheduled : List (Table κ ν) := []
  /-- What was scheduled since the last `cancel`: history. -/
  uncancelled : List (Prefs κ ν) := []

inductive Label (κ ν : Type)
  | schedule (prefs : Table κ ν)
  /-- The debounce fires. -/
  | debounce (answer : Answer)
  | flush (exiting : Bool) (answer : Answer)
  /-- The promise of save `i` is resolved or rejected, and `onError` is called. -/
  | settles (i : Nat) (rejected : Bool)
  /-- The release after that. -/
  | release (i : Nat) (answer : Answer)
  | settleTimeout (i : Nat) (answer : Answer)
  | cancel

variable {κ ν : Type}

def stamp (schedule : Nat) (prefs : Table κ ν) : Prefs κ ν where
  entries := prefs.entries.map fun e => ⟨e.1, e.2, schedule⟩
  nodupKeys := by
    have h : (prefs.entries.map fun e => (⟨e.1, e.2, schedule⟩ : (_ : κ) × Choice ν)).keys = prefs.entries.keys := by
      simp [List.keys, Function.comp_def]
    rw [List.NodupKeys, h]
    exact prefs.nodupKeys

variable [DecidableEq κ]

/-- `Object.assign(target, source)` -/
def assign (target source : Prefs κ ν) : Prefs κ ν := source ∪ target

def State.send (s : State κ ν) (prefs : Prefs κ ν) (exiting : Bool) (answer : Answer) : State κ ν :=
  if prefs.keys = [] then s
  else if s.inFlight > 0 ∧ !exiting then { s with held := assign s.held prefs }
  else match answer with
    | .throws => { s with sent := s.sent ++ [prefs], errors := s.errors ++ [prefs.keys] }
    | .nothing => { s with sent := s.sent ++ [prefs] }
    | .promise =>
      { s with sent := s.sent ++ [prefs], inFlight := s.inFlight + 1, saves := s.saves ++ [{ keys := prefs.keys, exiting }] }

def State.release (s : State κ ν) (i : Nat) (save : Save κ) (answer : Answer) : State κ ν :=
  if save.released then s
  else
    let s := { s with saves := s.saves.set i { save with released := true }, inFlight := s.inFlight - 1 }
    if s.inFlight = 0 then State.send { s with held := ∅ } s.held false answer else s

def State.flush (s : State κ ν) (exiting : Bool) (answer : Answer) : State κ ν :=
  if exiting then State.send { s with timer := false, held := ∅, pending := ∅ } (assign s.held s.pending) exiting answer
  else State.send { s with timer := false, pending := ∅ } s.pending exiting answer

def State.hasPending (s : State κ ν) : Bool := s.pending.keys ≠ [] || s.held.keys ≠ []

def step (s : State κ ν) : Label κ ν → Option (State κ ν)
  | .schedule prefs =>
    let chosen := stamp s.scheduled.length prefs
    some { s with
      pending := assign s.pending chosen
      timer := true
      scheduled := s.scheduled ++ [prefs]
      uncancelled := s.uncancelled ++ [chosen] }
  | .debounce answer => if s.timer then some (State.send { s with timer := false, pending := ∅ } s.pending false answer) else none
  | .flush exiting answer => some (s.flush exiting answer)
  | .settles i rejected => do
    let save ← s.saves[i]?
    if save.settled then none
    else some { s with
      saves := s.saves.set i { save with settled := true }
      errors := if rejected then s.errors ++ [save.keys] else s.errors }
  | .release i answer => do
    let save ← s.saves[i]?
    if save.settled then some (s.release i save answer) else none
  | .settleTimeout i answer => do
    let save ← s.saves[i]?
    if save.released then none else some (s.release i save answer)
  | .cancel => some { s with timer := false, pending := ∅, held := ∅, uncancelled := [] }

def system : TransitionSystem (State κ ν) (Label κ ν) where
  init s := s = {}
  step := step

def values (prefs : List (Prefs κ ν)) (key : κ) : List (Choice ν) := prefs.filterMap (·.lookup key)

structure LastChoiceKept (s : State κ ν) : Prop where
  /-- The values of a key are sent in the order they were scheduled. -/
  order : ∀ key, (values s.sent key).Pairwise (·.schedule < ·.schedule)
  scheduled : ∀ key, ∀ choice ∈ values s.sent key, (s.scheduled[choice.schedule]?).bind (·.lookup key) = some choice.value
  /-- Of the saves that no exit started one waits at most. -/
  apart : ∀ (i j : Nat) save save', s.saves[i]? = some save → s.saves[j]? = some save' → save.exiting = false → save'.exiting = false →
    save.released = false → save'.released = false → i = j
  /-- What is sent last is what was scheduled last. -/
  last : s.timer = false → (∀ save ∈ s.saves, save.released = true) → ∀ key choice,
    (values s.uncancelled key).getLast? = some choice → (values s.sent key).getLast? = some choice

end MailExpert.Preferences
