import MailExpert.Lib.Table

/-!
# A token refresh and a reconnect of a mailbox

`refreshGoogleToken` and `doRefreshMicrosoftToken` up to their one write, `markReconnectRequired`, the
decision of `refreshUnderLock` over the row it reads, and what the two OAuth callbacks write over an
existing mailbox. The token endpoint's answers are inputs. So are the ciphertexts `encrypt` draws; how
one decrypts is a parameter.
-/

namespace MailExpert.OAuth

inductive Provider
  | microsoft | google
deriving DecidableEq, Repr

inductive AppStatus
  | active | closed | disabled
deriving DecidableEq, Repr

/-- The columns of `email_accounts` that a refresh or a reconnect reads or writes. -/
structure Account (κ : Type) where
  oauth_provider : Provider
  oauth_app_id : Option Nat := none
  oauth_access_token : Option κ
  oauth_refresh_token : Option κ
  oauth_token_expiry : Option Int := none
  oauth_public_client : Bool := false
  oauth_reconnect_required : Bool := false
  sync_error : Option String := none
deriving DecidableEq, Repr

/-- A row of `google_oauth_apps`. -/
structure GoogleApp (κ : Type) where
  status : AppStatus
  client_secret : κ
deriving DecidableEq, Repr

structure TokenBody where
  access_token : Option String := none
  refresh_token : Option String := none
  expires_in : Option Int := none
  error : Option String := none
  error_description : Option String := none
deriving DecidableEq, Repr

structure Reply where
  ok : Bool
  body : TokenBody := {}
deriving DecidableEq, Repr

inductive RefreshError
  | appUnavailable
  | notConfigured
  | missingRefreshToken
  | unanswered
  | noAccessToken
  | provider (error : Option String)
deriving DecidableEq, Repr

def RefreshError.oauthError : RefreshError → Option String
  | appUnavailable => some "app_unavailable"
  | missingRefreshToken => some "missing_refresh_token"
  | provider error => error
  | notConfigured | unanswered | noAccessToken => none

/-- Errors that only a new consent repairs. -/
def RECONNECT_OAUTH_ERRORS : List String := ["invalid_grant", "missing_refresh_token", "app_unavailable"]

def RefreshError.needsReconnect (e : RefreshError) : Bool :=
  e.oauthError.any (· ∈ RECONNECT_OAUTH_ERRORS)

/-- What a refresh obtained, in plain text. -/
structure Tokens where
  access_token : Option String
  refresh_token : Option String
  expiry : Int
  isPublic : Bool
deriving DecidableEq, Repr

/-- A value that JavaScript takes for true. -/
def truthy (s : Option String) : Option String := s.filter (· ≠ "")

def TOKEN_REFRESH_SKEW_MS : Int := 5 * 60 * 1000

def expiryFrom (now : Int) (expires_in : Option Int) : Int :=
  now + ((expires_in.filter (0 < ·)).getD 3600) * 1000

/-- `/AADSTS90023/i` in what the endpoint says. -/
def saysPublicClient (body : TokenBody) : Bool :=
  let text := (truthy body.error_description <|> body.error).getD ""
  (text.toList.map Char.toLower).tails.any fun t => "aadsts90023".toList.isPrefixOf t

variable {κ : Type}

def needsTokenRefresh (account : Account κ) (now : Int) : Bool :=
  account.oauth_access_token.isNone ||
    account.oauth_token_expiry.all fun expiry => expiry - now < TOKEN_REFRESH_SKEW_MS

/-- `expiryTime(row) > expiryTime(account)`. -/
def expiresLater (row account : Account κ) : Bool :=
  row.oauth_token_expiry.any fun expiry => account.oauth_token_expiry.all (expiry > ·)

/-- Whether `refreshUnderLock` goes on to the provider with the row it read. -/
def mustRefresh (row account : Account κ) (now : Int) (force : Bool) : Bool :=
  !row.oauth_reconnect_required &&
    (needsTokenRefresh row now || force && !expiresLater row account)

section Provider

variable (decrypt : κ → Option String)

def storedRefreshToken (account : Account κ) : Option String :=
  truthy (account.oauth_refresh_token.bind decrypt)

/-- `getGoogleAppById`, unless the app is disabled. -/
def availableApp (apps : Table Nat (GoogleApp κ)) (appId : Option Nat) : Option (GoogleApp κ) :=
  (appId.bind apps.lookup).filter (·.status ≠ .disabled)

def refreshGoogleToken (apps : Table Nat (GoogleApp κ)) (account : Account κ) (reply : Option Reply)
    (now : Int) : Except RefreshError Tokens := do
  let some app := availableApp apps account.oauth_app_id | throw .appUnavailable
  let some _ := truthy (decrypt app.client_secret) | throw .notConfigured
  let some _ := storedRefreshToken decrypt account | throw .missingRefreshToken
  let some reply := reply | throw .unanswered
  if !reply.ok then throw (.provider reply.body.error)
  let some access_token := truthy reply.body.access_token | throw .noAccessToken
  return {
    access_token, refresh_token := truthy reply.body.refresh_token
    expiry := expiryFrom now reply.body.expires_in, isPublic := account.oauth_public_client }

/-- The second answer is that of the call without the client secret. -/
def doRefreshMicrosoftToken (clientSecret : Option String) (account : Account κ)
    (first second : Option Reply) (now : Int) : Except RefreshError Tokens := do
  let some _ := storedRefreshToken decrypt account | throw .missingRefreshToken
  let sendSecret := (truthy clientSecret).isSome && !account.oauth_public_client
  let some reply := first | throw .unanswered
  let again := !reply.ok && sendSecret && saysPublicClient reply.body
  let some reply := if again then second else some reply | throw .unanswered
  if !reply.ok then throw (.provider reply.body.error)
  return {
    access_token := truthy reply.body.access_token, refresh_token := truthy reply.body.refresh_token
    expiry := expiryFrom now reply.body.expires_in, isPublic := account.oauth_public_client || again }

/-- `refreshOAuthToken` up to the write. -/
def callProvider (clientSecret : Option String) (apps : Table Nat (GoogleApp κ)) (account : Account κ)
    (first second : Option Reply) (now : Int) : Except RefreshError Tokens :=
  match account.oauth_provider with
  | .microsoft => doRefreshMicrosoftToken decrypt clientSecret account first second now
  | .google => refreshGoogleToken decrypt apps account first now

end Provider

/-! ## The writes

A write gives `none` where it meets no row. -/

variable [DecidableEq κ]

def saveGoogle (row account : Account κ) (tokens : Tokens) (access refresh : Option κ) :
    Option (Account κ) :=
  if row.oauth_refresh_token = account.oauth_refresh_token ∧ row.oauth_app_id = account.oauth_app_id then
    some { row with
      oauth_access_token := access
      oauth_refresh_token := refresh <|> row.oauth_refresh_token
      oauth_token_expiry := some tokens.expiry }
  else none

def saveMicrosoft (row account : Account κ) (tokens : Tokens) (access refresh : Option κ) :
    Option (Account κ) :=
  if row.oauth_refresh_token = account.oauth_refresh_token ∧
      row.oauth_public_client = account.oauth_public_client then
    some { row with
      oauth_access_token := access
      oauth_refresh_token := refresh <|> row.oauth_refresh_token
      oauth_token_expiry := some tokens.expiry
      oauth_public_client := tokens.isPublic }
  else none

def save (row account : Account κ) (tokens : Tokens) (access refresh : Option κ) : Option (Account κ) :=
  match account.oauth_provider with
  | .microsoft => saveMicrosoft row account tokens access refresh
  | .google => saveGoogle row account tokens access refresh

def markReconnectRequired (row : Account κ) (rejectedRefreshToken : Option κ) : Option (Account κ) :=
  if row.oauth_refresh_token = rejectedRefreshToken then
    some { row with oauth_reconnect_required := true, sync_error := some "oauth_reconnect_required" }
  else none

/-- The Google callback over an existing mailbox. The stored refresh token may be kept when the consent
brought none and the mailbox stays on its app. -/
def reconnectGoogle (apps : Table Nat (GoogleApp κ)) (row : Account κ) (appId : Nat)
    (access refresh : Option κ) (expiry : Int) : Except String (Account κ) :=
  if (availableApp apps (some appId)).isNone then .error "not_configured"
  else if row.oauth_provider ≠ .google then .error "invalid_state"
  else
    let canKeepStoredRefresh := row.oauth_refresh_token.isSome && row.oauth_app_id = some appId &&
      !row.oauth_reconnect_required
    if refresh.isNone && !canKeepStoredRefresh then .error "missing_refresh_token"
    else .ok { row with
      oauth_access_token := access
      oauth_refresh_token := refresh <|> row.oauth_refresh_token
      oauth_token_expiry := some expiry
      oauth_public_client := false
      oauth_app_id := some appId
      oauth_reconnect_required := false
      sync_error := none }

def reconnectMicrosoft (row : Account κ) (publicClient : Bool) (access refresh : Option κ) (expiry : Int) :
    Except String (Account κ) :=
  if row.oauth_provider ≠ .microsoft then .error "invalid_state"
  else .ok { row with
    oauth_access_token := access
    oauth_refresh_token := refresh <|> row.oauth_refresh_token
    oauth_token_expiry := some expiry
    oauth_public_client := publicClient
    oauth_reconnect_required := false
    sync_error := none }

end MailExpert.OAuth
