import MailExpert.Forwarding.Loops
import MailExpert.Lib.Agents
import MailExpert.Lib.TransitionSystem
import MailExpert.SendTransport.Failure

/-!
# The reservation of a forward

`forwardRuleMessage` of `services/ruleForwarder.js`, for one rule and one message row: any number of calls, in any processes, beside each
other. A call waits for one answer at a time; between two of them it runs alone.

`sends` is history.
-/

namespace MailExpert.Forwarding

open Sanitizer (Text)
open SendTransport (SendError sendFailureIsDefinite)

inductive Status
  | pending
  | sent
  deriving DecidableEq

/-- The row of `inbox_rule_forwards`. -/
structure Reservation where
  id : Nat
  status : Status
  deriving DecidableEq

/-- The mailbox as it is read. -/
structure MailboxState where
  enabled : Option Bool := none
  mail_node : Bool := false
  delete_after : Bool := false
  deactivated_at : Bool := false

def isDisabledMailbox (state : Option MailboxState) : Bool := state.any (·.enabled = some false)

def isReadOnlyNodeMailbox (state : Option MailboxState) : Bool :=
  state.any fun state => state.mail_node && (state.delete_after || state.deactivated_at)

/-- What a call returns; it throws when it fails. -/
inductive Answer
  | loop
  | disabled
  | read_only
  | duplicate
  | sent
  | threw
  | died
  deriving DecidableEq

inductive Pc
  /-- The select of the mailbox. -/
  | state
  | insert
  /-- The select of the reservation that was there. -/
  | existing
  | fetchHeaders (id : Nat)
  /-- The delete of a call that found a loop. -/
  | releaseLoop (id : Nat)
  /-- The select of the letter. -/
  | source (id : Nat)
  | content (id : Nat)
  | transport (id : Nat)
  /-- The grant of a send lease of a managed Proton mailbox. -/
  | lease (id : Nat)
  | sendMail (id : Nat)
  /-- The update to `sent`. -/
  | mark (id : Nat)
  /-- The release of the lease, with what follows: it returns, or throws. -/
  | unlease (id : Nat) (delivered : Bool) (thrown : Option (Option Bool))
  /-- The delete after a failure. -/
  | clean (id : Nat)
  | done (answer : Answer)

structure Call where
  account : Account
  /-- `isManagedProtonAccount` -/
  managed : Bool
  /-- The message came with its headers. -/
  known : Bool
  pc : Pc
  /-- History: its reservation, that it found a loop, and that its last delete failed. -/
  reservation : Option Nat := none
  looped : Bool := false
  unreleased : Bool := false

/-- A send as the server saw it. One that did not fail definitely is uncertain. -/
structure Send where
  reservation : Nat
  accepted : Bool
  uncertain : Bool

/-- What comes back. `definite` is that of the error; a statement that failed may have run. -/
inductive Reply
  | ok
  | failed (definite : Option Bool) (ran : Bool)
  | mailbox (state : Option MailboxState)
  | headers (headers : HeadersInput)
  /-- No letter, or no transport. -/
  | missing
  | refused (err : SendError) (accepted : Bool)

structure State where
  row : Option Reservation := none
  nextId : Nat := 0
  sends : List Send := []
  calls : List Call := []

/-- `DELETE … WHERE id = $1 AND status = 'pending'` -/
def release (row : Option Reservation) (id : Nat) : Option Reservation := row.filter fun r => !(r.id = id && r.status = .pending)

/-- `UPDATE … SET status = 'sent' WHERE id = $1` -/
def markSent (row : Option Reservation) (id : Nat) : Option Reservation :=
  row.map fun r => if r.id = id then { r with status := .sent } else r

def knownHeaders (parsedHeaders : Option Headers) : Option Headers := parsedHeaders.filter (·.entries ≠ [])

def Pc.releasesLoop : Pc → Bool
  | .releaseLoop _ => true
  | _ => false

/-- The `catch`, with the `definite` of its error. -/
def caught (id : Nat) (delivered : Bool) (definite : Option Bool) : Pc :=
  if !delivered && definite ≠ some false then .clean id else .done .threw

section

variable (toLowerCase : Text → Text) (inherited : Text → Option Text) (hmac : Option (Text → Text))

/-- The check of an arrival. -/
def begin_ (account : Account) (known : Option Headers) : Pc :=
  match known with
  | none => .state
  | some headers =>
    match isForwardLoop toLowerCase hmac (receivedLoopTokens toLowerCase headers) account with
    | none => .done .threw
    | some true => .done .loop
    | some false => .state

def fetched (account : Account) (id : Nat) (headers : Headers) : Pc :=
  if headers.entries = [] then caught id false none
  else match isForwardLoop toLowerCase hmac (receivedLoopTokens toLowerCase headers) account with
    | none => caught id false none
    | some true => .releaseLoop id
    | some false => .source id

def Call.goes (call : Call) (pc : Pc) : Call := { call with pc }

/-- One answer, and what the call does until it waits again. -/
def Call.run (s : State) (call : Call) (reply : Reply) : Option (State × Call) :=
  match call.pc, reply with
  | .state, .mailbox state =>
    some (s, call.goes (
      if isDisabledMailbox state then .done .disabled
      else if isReadOnlyNodeMailbox state then .done .read_only
      else .insert))
  | .state, .failed _ _ => some (s, call.goes (.done .threw))
  | .insert, .ok =>
    match s.row with
    | some _ => some (s, call.goes .existing)
    | none =>
      let id := s.nextId
      -- a message without headers is checked now
      some ({ s with row := some ⟨id, .pending⟩, nextId := id + 1 },
        { call with pc := if call.known then .source id else .fetchHeaders id, reservation := some id })
  | .insert, .failed _ ran =>
    some (if ran && s.row.isNone then { s with row := some ⟨s.nextId, .pending⟩, nextId := s.nextId + 1 } else s, call.goes (.done .threw))
  | .existing, .ok => some (s, call.goes (.done (if s.row.any (·.status = .sent) then .duplicate else .threw)))
  | .existing, .failed _ _ => some (s, call.goes (.done .threw))
  | .fetchHeaders id, .headers headers =>
    let pc := fetched toLowerCase hmac call.account id (parseHeadersInput toLowerCase inherited headers)
    some (s, { call with pc, looped := pc.releasesLoop })
  | .fetchHeaders id, .failed definite _ => some (s, call.goes (caught id false definite))
  | .releaseLoop id, .ok => some ({ s with row := release s.row id }, call.goes (.done .loop))
  | .releaseLoop id, .failed definite ran =>
    some (if ran then { s with row := release s.row id } else s, { call with pc := caught id false definite, unreleased := true })
  | .source id, .ok => some (s, call.goes (.content id))
  | .source id, .missing => some (s, call.goes (caught id false none))
  | .source id, .failed definite _ => some (s, call.goes (caught id false definite))
  | .content id, .ok => some (s, call.goes (.transport id))
  | .content id, .failed definite _ => some (s, call.goes (caught id false definite))
  | .transport id, .ok => some (s, call.goes (if call.managed then .lease id else .sendMail id))
  | .transport id, .missing => some (s, call.goes (caught id false none))
  | .transport id, .failed definite _ => some (s, call.goes (caught id false definite))
  | .lease id, .ok => some (s, call.goes (.sendMail id))
  | .lease id, .failed _ _ => some (s, call.goes (caught id false none))
  | .sendMail id, .ok => some ({ s with sends := ⟨id, true, false⟩ :: s.sends }, call.goes (.mark id))
  | .sendMail id, .refused err accepted =>
    let definite := sendFailureIsDefinite err
    if definite && accepted then none
    else
      let s := { s with sends := ⟨id, accepted, !definite⟩ :: s.sends }
      some (s, call.goes (if call.managed then .unlease id false (some (some definite)) else caught id false (some definite)))
  | .mark id, .ok =>
    some ({ s with row := markSent s.row id }, call.goes (if call.managed then .unlease id true none else .done .sent))
  | .mark id, .failed definite ran =>
    some (if ran then { s with row := markSent s.row id } else s,
      call.goes (if call.managed then .unlease id true (some definite) else caught id true definite))
  | .unlease id delivered thrown, .ok =>
    some (s, call.goes (match thrown with | some definite => caught id delivered definite | none => .done .sent))
  | .clean id, .ok => some ({ s with row := release s.row id }, { call with pc := .done .threw, unreleased := false })
  | .clean id, .failed _ ran =>
    some (if ran then { s with row := release s.row id } else s, { call with pc := .done .threw, unreleased := true })
  | _, _ => none

inductive Label
  | call (account : Account) (managed : Bool) (parsedHeaders : Option Headers)
  | reply (i : Nat) (reply : Reply)
  /-- The process of the call dies. -/
  | die (i : Nat)

def step (s : State) : Label → Option State
  | .call account managed parsedHeaders =>
    let known := knownHeaders parsedHeaders
    some { s with calls := s.calls ++ [{ account, managed, known := known.isSome, pc := begin_ toLowerCase hmac account known }] }
  | .reply i reply => do
    let call ← s.calls[i]?
    let (s', call) ← call.run toLowerCase inherited hmac s reply
    some { s' with calls := s.calls.set i call }
  | .die i => do
    let call ← s.calls[i]?
    match call.pc with
    | .done _ => none
    | .releaseLoop _ | .clean _ => some { s with calls := s.calls.set i { call with pc := .done .died, unreleased := true } }
    | _ => some { s with calls := s.calls.set i (call.goes (.done .died)) }

def system : TransitionSystem State Label where
  init s := s = {}
  step := step toLowerCase inherited hmac

end

end MailExpert.Forwarding
