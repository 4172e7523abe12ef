import MailExpert.SendTransport.Gmail

/-!
# Failed sends

`services/smtpErrors.js` and `deliveryFailure` of `services/sendDelivery.js`: what the job queue
does with a send that failed, from the error alone.
-/

namespace MailExpert.SendTransport

/-- An error of any send path, with the fields that are read of it. -/
structure SendError where
  message : String
  code : Option String := none
  status : Option Nat := none
  responseCode : Option Nat := none
  definite : Bool := false
  classification : Option Classification := none
deriving DecidableEq, Repr

/-- `gmailSendError`. -/
def gmailSendError (c : Classification) : SendError :=
  let orElse (s t : String) := if s = "" then t else s
  let text := orElse c.googleMessage s!"Gmail API send failed ({c.kind.name})"
  match c.kind with
  | .terminal code responseStatus message =>
    { message := orElse message text, code := some code, status := some responseStatus
      definite := true, classification := some c }
  | _ => { message := text, classification := some c }

def OAUTH_RECONNECT_REQUIRED_MESSAGE : String :=
  "OAuth access was revoked or expired — reconnect the account"

/-- `new OAuthTokenError(code)`. -/
def oauthTokenError (code : String) : SendError where
  message := if code = "oauth_reconnect_required" then OAUTH_RECONNECT_REQUIRED_MESSAGE
    else s!"OAuth token refresh failed: {code}"
  code := some code

/-- `OAUTH_SEND_FAILURES`: the text of each code. -/
def OAUTH_SEND_FAILURES : List (String × String) :=
  [("oauth_reconnect_required",
      "Access to this account was revoked or has expired. Reconnect the account to send mail."),
    ("oauth_refresh_failed",
      "Could not renew access to this account. Please try again shortly.")]

/-- The texts of errors that come while connecting or waiting for the greeting. -/
def connectionText (message : String) : Bool :=
  Pattern.test false (Pattern.words
    ["ECONNREFUSED", "ENOTFOUND", "EHOSTUNREACH", "Connection timeout", "Greeting never received"])
    message

/-- A reply of the server refused the message or a step before it. -/
def isReply (responseCode : Option Nat) : Bool := responseCode.any fun c => 400 ≤ c ∧ c < 600

def smtpFailureIsDefinite (err : SendError) : Bool :=
  isReply err.responseCode ||
    decide (∃ c ∈ err.code, c ∈ ["EAUTH", "EDNS", "ETLS"]) || connectionText err.message

def oauthFailure (code : Option String) : Option String := 
  code.bind fun code => List.lookup code OAUTH_SEND_FAILURES

def sendFailureIsDefinite (err : SendError) : Bool :=
  smtpFailureIsDefinite err || err.definite || (oauthFailure err.code).isSome ||
    decide (err.code = some "EENVELOPE") || decide (err.code = some "EMESSAGE")

structure Account where
  smtpHost : String := ""
  smtpPort : Option Nat := none

def SMTP_CONNECTION_ERROR_CODES : List String :=
  ["ETIMEDOUT", "ECONNECTION", "EDNS", "ESOCKET", "ETLS"]

def smtpConnectionFailureReason (err : SendError) : String :=
  let mentions texts := Pattern.test true (Pattern.words texts) err.message
  if mentions ["ECONNREFUSED"] then "refused"
  else if mentions ["ENOTFOUND"] then "not_found"
  else if mentions ["EHOSTUNREACH"] then "unreachable"
  else if err.code = some "ETLS" ∨ mentions ["TLS", "handshake"] then "tls"
  else if err.code = some "ETIMEDOUT" ∨ mentions ["timeout", "timed out", "greeting never received"]
    then "timeout"
  else "unknown"

def SMTP_CONNECTION_REASON_TEXT : List (String × String) :=
  [("refused", "connection refused"), ("not_found", "host not found"),
    ("unreachable", "host unreachable"), ("tls", "TLS handshake failed"), ("timeout", "timed out"),
    ("unknown", "could not connect")]

/-- `smtpConnectionFailure`: the text for a send that never reached AUTH. -/
def smtpConnectionFailure (err : SendError) (account : Account) : Option String :=
  if Pattern.test true (Pattern.words
      ["Connection closed unexpectedly", "Server terminates connection", "EHLO failed"])
      err.message then none
  else if (∃ c ∈ err.code, c ∈ SMTP_CONNECTION_ERROR_CODES) ∨
      Pattern.test true (Pattern.words ["ECONNREFUSED", "ENOTFOUND", "EHOSTUNREACH"])
        err.message then
    let host := if account.smtpHost = "" then "the mail server" else account.smtpHost
    let target := match account.smtpPort with
      | some port => if port = 0 then host else s!"{host}:{port}"
      | none => host
    let reason := (List.lookup (smtpConnectionFailureReason err) SMTP_CONNECTION_REASON_TEXT).getD ""
    some s!"Could not connect to {target} ({reason}). The server's network may block outgoing mail ports."
  else none

def sanitizeSmtpError (err : SendError) : String :=
  let mentions alternatives := Pattern.test true alternatives err.message
  if mentions (Pattern.words
      ["ECONNREFUSED", "ENOTFOUND", "ETIMEDOUT", "ECONNRESET", "EHOSTUNREACH"]) then
    "Could not connect to the mail server. Check your SMTP settings."
  else if mentions (Pattern.words ["535", "534", "530"] ++
      [[.text "invalid", .optional, .text "login"],
        [.text "authentication", .optional, .text "fail"], [.text "bad", .gap, .text "credentials"],
        [.text "username", .gap, .text "password"], [.text "password", .gap, .text "username"]]) then
    "Authentication failed. Check your email account credentials."
  else if mentions ([.text "rate", .optional, .text "limit"] ::
      Pattern.words ["throttl", "too many", "4.2.", "4.7.94"]) then
    "The mail server is rate limiting sends. Please try again shortly."
  else if mentions ([.text "not", .optional, .text "accept"] ::
      Pattern.words ["550", "5.1.", "5.3.", "reject", "blacklist", "spam"]) then
    "Message was rejected by the mail server."
  else if mentions (Pattern.words ["TLS", "SSL", "certificate", "handshake"]) then
    "Secure connection to the mail server failed. Check your TLS settings."
  else "Failed to send message. Please try again."

/-- What the job queue does with the letter. -/
inductive Outcome
  | retry | fail | needsAttention
deriving DecidableEq, Repr

structure JobError where
  message : String
  outcome : Outcome
  code : String
deriving DecidableEq, Repr

def deliveryFailure (err : SendError) (account : Account) : JobError :=
  match oauthFailure err.code with
  | some text =>
    { message := text, outcome := if err.code = some "oauth_refresh_failed" then .retry else .fail
      code := err.code.getD "" }
  | none =>
    if err.definite ∧ err.status.isSome then
      let transient := err.code = some "gmail_quota_exceeded" ∨ err.status = some 429
      { message := err.message, outcome := if transient then .retry else .fail
        code := err.code.getD "send_rejected" }
    else if ¬sendFailureIsDefinite err then
      { message := "The connection to the mail server broke while sending. " ++
          "The message may have been delivered: check Sent before sending it again."
        outcome := .needsAttention, code := "send_uncertain" }
    else match smtpConnectionFailure err account with
      | some text => { message := text, outcome := .retry, code := "smtp_connection_failed" }
      | none =>
        if err.responseCode.any fun c => 400 ≤ c ∧ c < 500 then
          { message := sanitizeSmtpError err, outcome := .retry, code := "smtp_temporary" }
        else if err.code = some "EAUTH" then
          { message := sanitizeSmtpError err, outcome := .fail, code := "smtp_auth_failed" }
        else if smtpFailureIsDefinite err ∧ err.responseCode = none then
          { message := sanitizeSmtpError err, outcome := .retry, code := "smtp_connection_failed" }
        else { message := sanitizeSmtpError err, outcome := .fail, code := "smtp_rejected" }

end MailExpert.SendTransport
