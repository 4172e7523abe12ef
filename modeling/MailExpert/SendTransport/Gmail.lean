import MailExpert.Lib.Pattern

/-!
# Answers of the Gmail API

`services/gmailApiSender.js`: what an answer to `users.messages.send` says about the message.
-/

namespace MailExpert.SendTransport

/-- `body.error` of an answer; what is not a string or a list is absent. -/
structure ApiError where
  errors : List (Option String) := []
  details : List (Option String) := []
  message : Option String := none
deriving DecidableEq, Repr

namespace ApiError

/-- The reasons of `errors` and `details`, without empty ones. -/
def reasons (e : ApiError) : List String :=
  (e.errors ++ e.details).filterMap fun r => r.filter (· ≠ "")

def googleMessage (e : ApiError) : String := e.message.getD ""

def haystack (e : ApiError) : String := e.googleMessage ++ " " ++ " ".intercalate e.reasons

end ApiError

/-- The kind of a classification, with what only that kind carries. -/
inductive Kind
  | terminal (code : String) (responseStatus : Nat) (message : String)
  | fallback (reason : String) (disableApi : Bool)
  | reconnect
  | uncertain
  | authRetry
deriving DecidableEq, Repr

def Kind.name : Kind → String
  | terminal .. => "terminal"
  | fallback .. => "fallback"
  | reconnect => "reconnect"
  | uncertain => "uncertain"
  | authRetry => "auth_retry"

structure Classification where
  kind : Kind
  googleMessage : String := ""
  /-- The status Google answered with, when it answered. -/
  status : Option Nat := none
deriving DecidableEq, Repr

def isRateLimitReason (reason : String) : Bool :=
  Pattern.test true (Pattern.words ["rateLimitExceeded", "userRateLimitExceeded"]) reason

/-- `classifyGmailApiResponseError`, of a status other than 2xx and 401. -/
def classifyGmailApiResponseError (status : Nat) (e : ApiError) : Classification :=
  let say (kind : Kind) : Classification :=
    { kind, googleMessage := e.googleMessage, status := some status }
  if status = 403 ∧ (e.reasons.contains "accessNotConfigured" ∨ Pattern.test true (Pattern.words
      ["SERVICE_DISABLED", "has not been used in project", "it is disabled"]) e.haystack) then
    say (.fallback "accessNotConfigured" true)
  else if status = 403 ∧ (e.reasons.contains "insufficientPermissions" ∨ Pattern.test true
      [[.text "ACCESS_TOKEN_SCOPE_INSUFFICIENT"], [.text "insufficient", .gap, .text "permission"]]
      e.haystack) then
    say .reconnect
  else if status = 429 ∧ Pattern.test true (Pattern.words ["mail sending"]) e.googleMessage then
    say (.terminal "gmail_quota_exceeded" 429 "Gmail daily sending limit reached for this account.")
  else if e.reasons.contains "dailyLimitExceeded" then
    say (.fallback "project_quota" false)
  else if status = 429 ∨ e.reasons.any isRateLimitReason then
    say (.fallback "rate_limited" false)
  else if status ≥ 500 then
    say .uncertain
  else if status = 413 ∨ Pattern.test true (Pattern.words
      ["message too large", "exceeds the maximum permitted size"]) e.haystack then
    say (.terminal "gmail_message_too_large" 413 "This message is too large to send.")
  else if Pattern.test true
      [[.text "invalid", .gap, .text "to"], [.text "invalid", .gap, .text "recipient"],
        [.text "invalid", .gap, .text "address"], [.text "recipient address is not valid"]]
      e.haystack then
    say (.terminal "gmail_invalid_recipient" 400 "One of the recipient addresses was rejected.")
  else if status ≥ 400 ∧ status < 500 then
    say (.terminal "gmail_access_refused" 502 "Gmail refused to send this message.")
  else
    say (.fallback s!"http_{status}" false)

/-- The errors of `fetch` that come before the request has a connection. -/
def PRE_SEND_NETWORK_CODES : List String :=
  ["ENOTFOUND", "EAI_AGAIN", "ECONNREFUSED", "EHOSTUNREACH", "ENETUNREACH",
    "UND_ERR_CONNECT_TIMEOUT", "CERT_HAS_EXPIRED", "DEPTH_ZERO_SELF_SIGNED_CERT",
    "UNABLE_TO_VERIFY_LEAF_SIGNATURE", "ERR_TLS_CERT_ALTNAME_INVALID"]

/-- A request that ended without an answer: the name of the error and the code of its cause.
`bytesSent` is what no code knows, whether a byte of the message may have left. -/
structure NetworkFailure where
  name : String
  code : Option String
  bytesSent : Bool
  /-- An error with one of the codes comes before anything is sent. -/
  preSend : name ≠ "AbortError" → (∃ c ∈ code, c ∈ PRE_SEND_NETWORK_CODES) → bytesSent = false

def classifyGmailApiNetworkError (f : NetworkFailure) : Classification :=
  if f.name = "AbortError" then { kind := .uncertain }
  else match f.code with
    | some code =>
      if code ∈ PRE_SEND_NETWORK_CODES then { kind := .fallback code false }
      else { kind := .uncertain }
    | none => { kind := .uncertain }

inductive ApiAnswer
  | http (status : Nat) (error : ApiError) (id : Option String)
  | network (f : NetworkFailure)

/-- `res.ok`. -/
def isOk (status : Nat) : Bool := 200 ≤ status ∧ status < 300

/-- `postGmailApiSend`: the id of the sent message, or why it was not sent. -/
def postGmailApiSend : ApiAnswer → Except Classification (Option String)
  | .http status error id =>
    if isOk status then .ok id
    else if status = 401 then .error { kind := .authRetry, googleMessage := error.googleMessage }
    else .error (classifyGmailApiResponseError status error)
  | .network f => .error (classifyGmailApiNetworkError f)

end MailExpert.SendTransport
