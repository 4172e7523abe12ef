import MailExpert.Lib.Agents
import MailExpert.Lib.Table
import MailExpert.Lib.TransitionSystem

/-!
# A semaphore for each key

`createKeyedSemaphore` of `services/imapManager.js`. The entries are objects: one that was dropped from the map lives on in the calls that wait at
it, so the map holds places in a list of entries. Every call of `tryAcquire` and `acquire` is kept, in the order in which they came.
-/

namespace MailExpert.Semaphore

universe u

variable {κ : Type u} [DecidableEq κ]

/-- `waiters` are the calls that wait, the first one first. -/
structure Slot where
  active : Nat
  waiters : List Nat
deriving DecidableEq

/-- The entries that were ever made, and the map `slots`. -/
structure Slots (κ : Type u) [DecidableEq κ] where
  entries : List Slot
  slots : Table κ Nat

namespace Slots

/-- `slots.get(key)`: the entry and where it is. -/
def get? (h : Slots κ) (key : κ) : Option (Nat × Slot) := (h.slots.lookup key).bind fun e => (h.entries[e]?).map fun s => (e, s)

def set (h : Slots κ) (e : Nat) (s : Slot) : Slots κ := { h with entries := h.entries.set e s }

/-- `slots.set(key, s)` with a new entry. -/
def create (h : Slots κ) (key : κ) (s : Slot) : Slots κ where
  entries := h.entries ++ [s]
  slots := h.slots.insert key h.entries.length

/-- `slots.delete(key)` -/
def delete (h : Slots κ) (key : κ) : Slots κ := { h with slots := h.slots.erase key }

/-- `tryAcquire(key)`: what it answers. -/
def tryAcquire (limitFor : κ → Nat) (h : Slots κ) (key : κ) : Bool × Slots κ :=
  match h.get? key with
  | none => (true, h.create key ⟨1, []⟩)
  | some (e, s) => if limitFor key ≤ s.active ∨ s.waiters ≠ [] then (false, h) else (true, h.set e { s with active := s.active + 1 })

/-- The synchronous part of `acquire(key)` by a call: whether it got a slot, and the entry it holds on to. -/
def acquire (limitFor : κ → Nat) (h : Slots κ) (key : κ) (call : Nat) : Bool × Nat × Slots κ :=
  let (e, s, h) := match h.get? key with
    | some (e, s) => (e, s, h)
    | none => (h.entries.length, ⟨0, []⟩, h.create key ⟨0, []⟩)
  if s.active < limitFor key then (true, e, h.set e { s with active := s.active + 1 })
  else (false, e, h.set e { s with waiters := s.waiters ++ [call] })

/-- `release(key)`: the call that the slot is handed to. -/
def release (h : Slots κ) (key : κ) : Option Nat × Slots κ :=
  match h.get? key with
  | none => (none, h)
  | some (e, s) =>
    match s.waiters with
    | next :: rest => (some next, h.set e { s with waiters := rest })
    | [] =>
      let h := h.set e { s with active := s.active - 1 }
      (none, if s.active - 1 = 0 then h.delete key else h)

/-- The timer of a call that holds on to entry `e`: whether it is taken out of the waiters. -/
def expire (h : Slots κ) (e call : Nat) : Bool × Slots κ :=
  match h.entries[e]? with
  | none => (false, h)
  | some s => if call ∈ s.waiters then (true, h.set e { s with waiters := s.waiters.erase call }) else (false, h)

end Slots

inductive Status
  | waiting
  | holding
  | released
  /-- The timeout fired. -/
  | refused
  /-- `tryAcquire` answered `false`. -/
  | denied
deriving DecidableEq

/-- A call of `tryAcquire` or `acquire`, the entry it holds on to and whether it has a timeout. -/
structure Call (κ : Type u) where
  key : κ
  entry : Nat
  timeout : Bool
  status : Status
deriving DecidableEq

/-- `grants` are the calls that got a slot, in that order. -/
structure State (κ : Type u) [DecidableEq κ] where
  slots : Slots κ
  calls : List (Call κ)
  grants : List Nat

def State.grant (s : State κ) (i : Nat) : State κ :=
  match s.calls[i]? with
  | none => s
  | some c => { s with calls := s.calls.set i { c with status := .holding }, grants := s.grants ++ [i] }

/-- Releases are made by holders; a timer that was set may fire at any time, also when it was to be cleared. -/
inductive Label (κ : Type u)
  | tryAcquire (key : κ)
  | acquire (key : κ) (timeout : Bool)
  | release (i : Nat)
  | expire (i : Nat)

def step (limitFor : κ → Nat) (s : State κ) : Label κ → Option (State κ)
  | .tryAcquire key =>
    let (got, slots) := s.slots.tryAcquire limitFor key
    some {
      slots := slots
      calls := s.calls ++ [⟨key, 0, false, if got then .holding else .denied⟩]
      grants := if got then s.grants ++ [s.calls.length] else s.grants
    }
  | .acquire key timeout =>
    let (got, e, slots) := s.slots.acquire limitFor key s.calls.length
    some {
      slots := slots
      calls := s.calls ++ [⟨key, e, timeout, if got then .holding else .waiting⟩]
      grants := if got then s.grants ++ [s.calls.length] else s.grants
    }
  | .release i =>
    match s.calls[i]? with
    | some c =>
      if c.status = .holding then
        let (next, slots) := s.slots.release c.key
        let s := { s with slots := slots, calls := s.calls.set i { c with status := .released } }
        some (match next with
          | some j => s.grant j
          | none => s)
      else none
    | none => none
  | .expire i =>
    match s.calls[i]? with
    | some c =>
      if c.timeout then
        let (refused, slots) := s.slots.expire c.entry i
        some { s with slots := slots, calls := if refused then s.calls.set i { c with status := .refused } else s.calls }
      else none
    | none => none

def Initial (s : State κ) : Prop := s = ⟨⟨[], ∅⟩, [], []⟩

def system (limitFor : κ → Nat) : TransitionSystem (State κ) (Label κ) := ⟨Initial, step limitFor⟩

end MailExpert.Semaphore
