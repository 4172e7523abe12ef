import MailExpert.OAuth.Refresh
import MailExpert.Lib.TransitionSystem

/-!
# Refreshes that race reconnects

Any number of refreshes of one mailbox run beside each other: each reads the row, has the provider's
answer at some later time, and writes once. Nothing keeps two of them apart, since a refresh lock may
expire early. A reconnect is one transaction. The state also keeps who wrote a column last, and the
stored refresh tokens that the provider rejected.
-/

namespace MailExpert.OAuth

variable {κ : Type}

/-- A running refresh, with the row it read and the number of reconnects before it read. -/
structure Refresh (κ : Type) where
  row : Account κ
  since : Nat
  answer : Option (Except RefreshError Tokens) := none

/-- Who wrote a column: the connection or reconnect of this number, or a refresh that read its row after
so many reconnects. -/
inductive Writer
  | connect (number : Nat)
  | refresh (id : Nat) (since : Nat)
deriving DecidableEq, Repr

structure Written where
  oauth_access_token : Writer
  oauth_refresh_token : Writer
  oauth_app_id : Writer
  oauth_public_client : Writer
deriving DecidableEq, Repr

structure State (κ : Type) where
  account : Account κ
  apps : Table Nat (GoogleApp κ)
  refreshes : Table Nat (Refresh κ)
  /-- Every ciphertext that was ever stored. -/
  encrypted : List κ
  /-- How many reconnects there were. -/
  connects : Nat
  written : Written
  /-- The stored refresh tokens that the provider rejected for good. -/
  rejected : List κ

inductive Label (κ : Type)
  | read (id : Nat) (caller : Account κ) (now : Int) (force : Bool)
  | answer (id : Nat) (first second : Option Reply) (now : Int)
  | write (id : Nat) (access refresh : Option κ)
  | reconnectGoogle (appId : Nat) (access refresh : Option κ) (expiry : Int)
  | reconnectMicrosoft (publicClient : Bool) (access refresh : Option κ) (expiry : Int)
  | changeApps (apps : Table Nat (GoogleApp κ))

variable [DecidableEq κ] (decrypt : κ → Option String) (clientSecret : Option String)

/-- `encrypt` never returns a ciphertext twice, and each decrypts. -/
def draws (encrypted : List κ) (access refresh : Option κ) : Bool :=
  let drawn := access.toList ++ refresh.toList
  drawn.Nodup && drawn.all fun c => c ∉ encrypted && (truthy (decrypt c)).isSome

/-- The ciphertexts are those of what the refresh obtained. -/
def encrypts (tokens : Tokens) (access refresh : Option κ) : Bool :=
  access.bind decrypt = tokens.access_token && refresh.bind decrypt = tokens.refresh_token &&
    access.isSome = tokens.access_token.isSome && refresh.isSome = tokens.refresh_token.isSome

/-- The refresh token of the row when the provider rejected it for good. -/
def rejects (row : Account κ) : Except RefreshError Tokens → List κ
  | .error (.provider error) =>
    if (RefreshError.provider error).needsReconnect then row.oauth_refresh_token.toList else []
  | _ => []

def State.reconnect (s : State κ) (account : Account κ) (access refresh : Option κ) (app : Bool) :
    State κ :=
  let writer := .connect (s.connects + 1)
  { s with
    account
    encrypted := access.toList ++ refresh.toList ++ s.encrypted
    connects := s.connects + 1
    written := {
      oauth_access_token := writer
      oauth_refresh_token := if refresh.isSome then writer else s.written.oauth_refresh_token
      oauth_app_id := if app then writer else s.written.oauth_app_id
      oauth_public_client := writer } }

/-- The transaction of an OAuth callback: what it makes of the stored row, with the ciphertexts drawn. -/
def State.consent (s : State κ) (written : Except String (Account κ)) (access refresh : Option κ)
    (app : Bool) : Option (State κ) :=
  match written with
  | .ok account =>
    if draws decrypt s.encrypted access refresh then some (s.reconnect account access refresh app)
    else none
  | .error _ => some s

def State.write (s : State κ) (id : Nat) (refreshing : Refresh κ) (answer : Except RefreshError Tokens)
    (access refresh : Option κ) : Option (State κ) :=
  let ended : State κ := { s with refreshes := s.refreshes.delete fun k _ => k = id }
  match answer with
  | .ok tokens =>
    if draws decrypt s.encrypted access refresh ∧ encrypts decrypt tokens access refresh then
      let ended := { ended with encrypted := access.toList ++ refresh.toList ++ s.encrypted }
      match save s.account refreshing.row tokens access refresh with
      | none => some ended
      | some account =>
        let writer := .refresh id refreshing.since
        some { ended with
          account
          written := { s.written with
            oauth_access_token := writer
            oauth_refresh_token :=
              if refresh.isSome then writer else s.written.oauth_refresh_token
            oauth_public_client :=
              if account.oauth_provider = .microsoft then writer else s.written.oauth_public_client } }
    else none
  | .error e =>
    if e.needsReconnect then
      match markReconnectRequired s.account refreshing.row.oauth_refresh_token with
      | none => some ended
      | some account => some { ended with account }
    else some ended

def step (s : State κ) : Label κ → Option (State κ)
  | .read id caller now force =>
    if (s.refreshes.lookup id).isSome then none
    else if mustRefresh s.account caller now force then
      some { s with refreshes := s.refreshes.insert id { row := s.account, since := s.connects } }
    else some s
  | .answer id first second now => do
    let refreshing ← s.refreshes.lookup id
    if refreshing.answer.isSome then none
    else
      let answer := callProvider decrypt clientSecret s.apps refreshing.row first second now
      some { s with
        refreshes := s.refreshes.modify id fun _ => { refreshing with answer := some answer }
        rejected := rejects refreshing.row answer ++ s.rejected }
  | .write id access refresh => do
    let refreshing ← s.refreshes.lookup id
    let answer ← refreshing.answer
    s.write decrypt id refreshing answer access refresh
  | .reconnectGoogle appId access refresh expiry =>
    s.consent decrypt (reconnectGoogle s.apps s.account appId access refresh expiry) access refresh true
  | .reconnectMicrosoft publicClient access refresh expiry =>
    s.consent decrypt (reconnectMicrosoft s.account publicClient access refresh expiry) access refresh
      false
  | .changeApps apps => some { s with apps }

/-- A connected mailbox that no refresh reads yet. -/
def system : TransitionSystem (State κ) (Label κ) where
  init s := s.refreshes = ∅ ∧ s.connects = 0 ∧
    s.written = ⟨.connect 0, .connect 0, .connect 0, .connect 0⟩ ∧
    (∀ c ∈ s.account.oauth_refresh_token, c ∈ s.encrypted) ∧ s.rejected = []
  step := step decrypt clientSecret

/-- A step of a refresh, or a reconnect that brings a new refresh token. -/
def Label.races : Label κ → Bool
  | .reconnectGoogle _ _ refresh _ | .reconnectMicrosoft _ _ refresh _ => refresh.isSome
  | .changeApps _ => false
  | .read .. | .answer .. | .write .. => true

/-- Refreshes and reconnects, over apps that stand. -/
def races (_ : State κ) (l : Label κ) : Prop := l.races = true

instance (s : State κ) (l : Label κ) : Decidable (races s l) :=
  inferInstanceAs (Decidable (l.races = true))

end MailExpert.OAuth
