import MailExpert.OAuth.Refresh
import MailExpert.Lib.Agents
import MailExpert.Lib.TransitionSystem

/-!
# Refreshes that callers share

`ensureFreshOAuthAccount` of `services/oauth/tokenManager.js` for one mailbox in one process, `refreshUnderLock` statement by statement, and
what other processes commit meanwhile. An access token stands for what it decrypts to. The provider gives no token twice, and every token
comes with its expiry into a row before a caller has a copy of it.
-/

namespace MailExpert.OAuth.Forced

variable {κ : Type}

/-- A `refreshUnderLock`, with the account and the force it was called with. -/
structure Run (κ : Type) where
  account : Account κ
  force : Bool
  /-- The row that it read and takes to the provider, and the tokens that were there by then: history. -/
  asked : Option (Account κ × List (κ × Option Int)) := none
  /-- The write met another grant, and the row is read again. -/
  missed : Bool := false
  /-- None inside where the refresh threw. -/
  result : Option (Option (Account κ)) := none

inductive Phase (κ : Type)
  /-- Waits for a refresh, whose result it takes. -/
  | awaits (run : Nat)
  /-- Waits for a refresh that was not forced. -/
  | checks (run : Nat)
  | done (result : Option (Account κ))

structure Call (κ : Type) where
  account : Account κ
  force : Bool
  phase : Phase κ

structure State (κ : Type) where
  row : Option (Account κ)
  /-- The access tokens that the mailbox ever had: history. -/
  issued : List (κ × Option Int)
  runs : List (Run κ) := []
  /-- `inFlightRefresh.get(account.id)` -/
  inFlight : Option Nat := none
  calls : List (Call κ) := []

inductive Label (κ : Type)
  | call (account : Account κ) (force : Bool) (now : Int)
  /-- The lock is not free in time. -/
  | lockFails (i : Nat)
  | read (i : Nat) (now : Int)
  | refreshFails (i : Nat)
  /-- The provider's tokens and the write of them. -/
  | write (i : Nat) (tokens : Tokens) (access refresh : Option κ)
  | reread (i : Nat)
  /-- The `finally` of the promise. -/
  | forget (i : Nat)
  | resume (j : Nat) (now : Int)
  /-- Another process or a reconnect writes the row, or deletes it. -/
  | commit (row : Option (Account κ))

section
variable (s : State κ)

/-- The refresh that is under way. -/
def State.existing : Option (Nat × Run κ) := s.inFlight.bind fun i => (s.runs[i]?).map (i, ·)

def pair (account : Account κ) : Option (κ × Option Int) := account.oauth_access_token.map (·, account.oauth_token_expiry)

/-- `ensureFreshOAuthAccount` up to its first await. -/
def ensureFreshOAuthAccount (account : Account κ) (force : Bool) (now : Int) : State κ × Phase κ :=
  if !force && !needsTokenRefresh account now then (s, .done (some account))
  else match s.existing with
    | some (i, run) => (s, if !force || run.force then .awaits i else .checks i)
    | none => ({ s with runs := s.runs ++ [{ account, force }], inFlight := some s.runs.length }, .awaits s.runs.length)

/-- What refresh `i` answers, while it is still in the map. -/
def State.settle (i : Nat) (run : Run κ) (result : Option (Account κ)) : State κ :=
  { s with runs := s.runs.set i { run with result := some result } }

end

variable [DecidableEq κ]

/-- The token is new. -/
def State.draws (s : State κ) (access : Option κ) : Bool := access.all fun token => s.issued.all (·.1 ≠ token)

/-- Whether the row keeps the grant and the access token. -/
def sameGrant (row row' : Account κ) : Bool :=
  row.oauth_refresh_token = row'.oauth_refresh_token && row.oauth_app_id = row'.oauth_app_id &&
    row.oauth_public_client = row'.oauth_public_client && pair row = pair row'

def step (s : State κ) : Label κ → Option (State κ)
  | .call account force now =>
    if (pair account).all (· ∈ s.issued) then
      let (s', phase) := ensureFreshOAuthAccount s account force now
      some { s' with calls := s'.calls ++ [{ account, force, phase }] }
    else none
  | .lockFails i => do
    let run ← s.runs[i]?
    if run.asked.isNone && run.result.isNone then some (s.settle i run none) else none
  | .read i now => do
    let run ← s.runs[i]?
    if run.asked.isNone && run.result.isNone then
      match s.row with
      | none => some (s.settle i run none)
      | some row =>
        if row.oauth_reconnect_required then some (s.settle i run none)
        else if mustRefresh row run.account now run.force then
          some { s with runs := s.runs.set i { run with asked := some (row, s.issued) } }
        else some (s.settle i run (some row))
    else none
  | .refreshFails i => do
    let run ← s.runs[i]?
    if run.asked.isSome && run.result.isNone then some (s.settle i run none) else none
  | .write i tokens access refresh => do
    let run ← s.runs[i]?
    let (account, _) ← run.asked
    if !run.missed && run.result.isNone && s.draws access then
      match s.row.bind fun row => save row account tokens access refresh with
      | none => some { s with runs := s.runs.set i { run with missed := true } }
      | some row =>
        let s' := { s with row := some row, issued := s.issued ++ (access.map (·, some tokens.expiry)).toList }
        some (s'.settle i run (some { account with
          oauth_access_token := access
          oauth_refresh_token := refresh <|> account.oauth_refresh_token
          oauth_token_expiry := some tokens.expiry }))
    else none
  | .reread i => do
    let run ← s.runs[i]?
    if run.missed && run.result.isNone then some (s.settle i run s.row) else none
  | .forget i => do
    let run ← s.runs[i]?
    if s.inFlight = some i && run.result.isSome then some { s with inFlight := none } else none
  | .resume j now => do
    let call ← s.calls[j]?
    match call.phase with
    | .awaits i =>
      let result ← (s.runs[i]?).bind (·.result)
      if s.inFlight = some i then none else some { s with calls := s.calls.set j { call with phase := .done result } }
    | .checks i =>
      let result ← (s.runs[i]?).bind (·.result)
      if s.inFlight = some i then none
      else if result.all (expiresLater · call.account) then some { s with calls := s.calls.set j { call with phase := .done result } }
      else
        let (s', phase) := ensureFreshOAuthAccount s call.account call.force now
        some { s' with calls := s'.calls.set j { call with phase } }
    | .done _ => none
  | .commit row =>
    if s.row.any (fun old => row.any (sameGrant old)) || s.draws (row.bind (·.oauth_access_token)) then
      some { s with row, issued := s.issued ++ (row.bind pair).toList }
    else none

def system : TransitionSystem (State κ) (Label κ) where
  init s := s.issued = (s.row.bind pair).toList ∧ s.runs = [] ∧ s.inFlight = none ∧ s.calls = []
  step := step

/-- A forced call resolves to no account with the token that it passed. -/
def NeverHandsBack (s : State κ) : Prop := ∀ call ∈ s.calls, call.force = true → ∀ result, call.phase = .done (some result) →
  ∀ token, call.account.oauth_access_token = some token → result.oauth_access_token ≠ some token

/-- A refresh gives no account with the token of the caller: the token is not newer than the one the refresh was started for, or, once it
read the row and asks the provider, was there before that. -/
def Run.serves (run : Run κ) (account : Account κ) : Bool :=
  match run.asked with
  | none => !expiresLater account run.account
  | some (_, known) => (pair account).all (· ∈ known)

/-- A forced call joins a forced refresh only where that serves it. -/
def served (s : State κ) : Label κ → Bool
  | .call account true _ => s.existing.all fun (_, run) => !run.force || run.serves account
  | .resume j _ => (s.calls[j]?).all fun call => !call.force || match call.phase with
    | .checks i => ((s.runs[i]?).bind (·.result)).all fun result => result.all (expiresLater · call.account) ||
        s.existing.all fun (_, run) => !run.force || run.serves call.account
    | _ => true
  | _ => true

end MailExpert.OAuth.Forced
