import MailExpert.AccessSync.Reconcile
import MailExpert.Lib.Agents
import MailExpert.Lib.Table
import MailExpert.Lib.TransitionSystem

/-!
# Password sign-in

The routes of `routes/auth.js` that lead to a session: `/login`, `/2fa/challenge`, `/2fa/send-email-otp`,
`/2fa/verify-email-otp`, `/2fa/enrollment/setup` and `/2fa/enrollment/enable`, beside `/reset-password`. A request moves from
one of its statements, Redis commands and session saves to the next; a limiter that refuses it, or a statement that fails,
stops it there.

A request holds the copy of the session that it was loaded with; what it changes in it is written over those fields when it
ends, and a session that has ended stays ended. A sign-in gets a new session id.

`Chain` is history: the password check that a sign-in rests on.
-/

namespace MailExpert.SignIn

open AccessSync (trim isSpace)

abbrev UserId := Nat

abbrev Sid := Nat

/-- The code that is called: `toLowerCase`, `bcrypt.compare`, SHA-256, and otplib's check of a code for one 30 s period. -/
structure Library where
  toLowerCase : String → String
  compare : String → String → Bool
  sha256 : String → String
  verify : String → String → Nat → Bool

structure User where
  username : String
  password_hash : Option String
  totp_secret : Option String := none
  totp_enabled : Bool := false
  disabled : Bool := false
  recovery_email : Option String := none
  /-- How often the hash was replaced: history. -/
  version : Nat := 0

/-- A password that matched the hash a sign-in read, and what else the sign-in read: history. -/
structure Chain where
  user : UserId
  version : Nat
  password : String
  hash : String
  /-- 2FA was enabled, or its enforcement required. -/
  needed : Bool

structure Session where
  userId : Option UserId := none
  pendingUserId : Option UserId := none
  pendingTOTPExpiry : Nat := 0
  pendingMFAEnrollment : Bool := false
  pendingTOTPSecret : Option String := none
  pendingTOTPSetupExpiry : Nat := 0
  /-- History. -/
  chain : Option Chain := none

structure Device where
  user_id : UserId
  token_hash : String
  expires_at : Option Nat
  /-- History. -/
  chain : Option Chain

structure OtpToken where
  user_id : UserId
  code_hash : String
  expires_at : Nat
  sent_to : Option String
  used : Bool := false

structure ResetToken where
  user_id : UserId
  token_hash : String
  expires_at : Nat
  sent_to : Option String

structure Settings where
  internal_auth_disabled : Bool := false
  mfa_enforcement : Option String := none
  mfa_device_trust : Option String := none

def Settings.required (st : Settings) : Bool := st.mfa_enforcement.getD "off" = "required"

def getTrustDurationMs (setting : String) : Nat :=
  match setting with
  | "7d" => 7 * 24 * 60 * 60 * 1000
  | "30d" => 30 * 24 * 60 * 60 * 1000
  | "permanent" => 365 * 24 * 60 * 60 * 1000
  | _ => 0

/-- A code that was accepted from an authenticator: history. -/
structure Use where
  user : UserId
  secret : String
  code : String
  /-- When it was checked, and the secret stored then. -/
  time : Nat
  stored : Option String

/-- `verifyTotp` takes codes of the current period only. -/
def Use.period (x : Use) : Nat := x.time / 30000

/-- The second factor that a sign-in came with: history. -/
inductive Factor
  | none
  /-- A trusted device, its cookie, and the time of the query. -/
  | device (device : Device) (cookie : String) (time : Nat)
  | totp (x : Use)
  /-- A mailed code, the recovery email stored when it was used up, and the time. -/
  | mail (id : Nat) (token : OtpToken) (recovery : Option String) (time : Nat)

/-- A session that a request signs in: history beside the user. -/
structure Opened where
  user : UserId
  /-- The row that the request read. -/
  row : User
  chain : Option Chain
  factor : Factor

/-- What a mailed code or a period's code of an authenticator is spent as. -/
inductive Ticket
  | mail (id : Nat)
  | totp (user : UserId) (code : String) (period : Nat)
  deriving DecidableEq

def Use.ticket (x : Use) : Ticket := .totp x.user x.code x.period

def Factor.ticket : Factor → Option Ticket
  | .totp x => some x.ticket
  | .mail id .. => some (.mail id)
  | _ => Option.none

/-- All that the requests share. -/
structure World where
  now : Nat
  settings : Settings
  users : Table UserId User
  sessions : Table Sid Session
  nextSid : Sid
  devices : Table Nat Device
  nextDevice : Nat
  otps : Table Nat OtpToken
  nextOtp : Nat
  resetTokens : Table Nat ResetToken
  /-- `totp_used:…`, until when -/
  replay : Table (UserId × String) Nat
  /-- History: the sessions signed in, the tickets spent, each row an enrolment wrote its secret over, the codes that enrolments
  accepted, and the resets that answered ok, with the version of the hash they replaced. -/
  opened : List Opened := []
  spent : List Ticket := []
  replaced : List User := []
  enrolled : List Ticket := []
  resets : List (UserId × Nat) := []

structure Login where
  username : String
  password : String
  /-- `trustedDeviceToken` -/
  cookie : Option String

inductive Phase
  | done
  -- /login
  | settings (sid : Sid) (r : Login)
  | findUser (sid : Sid) (r : Login)
  | leave (sid : Sid) (r : Login) (user : User) (chain : Chain)
  | findDevice (r : Login) (user : User) (chain : Chain)
  | policy (user : User) (chain : Chain)
  -- `sendEmailOtpCode`, and the session that `/login` saves after it
  | otpDelete (uid : UserId) (toEmail : Option String) (after : Option Session)
  | otpInsert (uid : UserId) (toEmail : Option String) (after : Option Session)
  | otpMail (after : Option Session)
  -- the ends of a request
  | refuse (sid : Sid)
  | timeout (sid : Sid)
  | pend (session : Session)
  | elevate (sid : Sid) (o : Opened) (remember : Bool)
  | trustSetting (o : Opened)
  | trustInsert (o : Opened) (expires : Nat)
  | signIn (o : Opened)
  -- /2fa/challenge
  | challenge (sid : Sid) (copy : Session) (code : String) (remember : Bool)
  | challengeUser (sid : Sid) (uid : UserId) (chain : Option Chain) (code : String) (remember : Bool)
  | replay (sid : Sid) (user : User) (chain : Option Chain) (x : Use) (remember : Bool)
  -- /2fa/send-email-otp
  | sendOtp (copy : Session)
  | sendTo (uid : UserId)
  -- /2fa/verify-email-otp
  | verify (sid : Sid) (copy : Session) (code : String) (remember : Bool)
  | consume (sid : Sid) (uid : UserId) (chain : Option Chain) (code : String) (remember : Bool)
  | consumed (sid : Sid) (uid : UserId) (chain : Option Chain) (factor : Factor) (remember : Bool)
  -- /2fa/enrollment/setup
  | setup (sid : Sid) (copy : Session)
  | setupSave (sid : Sid)
  -- /2fa/enrollment/enable
  | enable (sid : Sid) (copy : Session) (code : String)
  | enableVerify (sid : Sid) (uid : UserId) (chain : Option Chain) (secret : String) (code : String)
  | enroll (sid : Sid) (chain : Option Chain) (x : Use)
  -- /reset-password
  | reset (token : String)
  | setHash (uid : UserId)
  | scanFirst (uid : UserId) (version : Nat)
  | scan (uid : UserId) (version : Nat) (todo : List Sid)
  | visit (uid : UserId) (version : Nat) (keys todo : List Sid) (last : Bool)
  | del (uid : UserId) (version : Nat) (key : Sid) (keys todo : List Sid) (last : Bool)
  | forget (uid : UserId) (version : Nat)

/-- What a statement meets. -/
inductive Pick
  | next
  | stop
  /-- The mail was not sent. -/
  | failed
  /-- The text that was drawn. -/
  | text (s : String)
  /-- The row that the statement found. -/
  | row (id : Nat)
  /-- What a SCAN returned, and whether its cursor is `0`. -/
  | keys (ks : List Sid) (last : Bool)

def normalizedCode (code : String) : String := String.ofList (code.toList.filter fun c => !isSpace c)

/-- `TOTP_TOKEN_RE` -/
def sixDigits (token : String) : Bool := token.toList.length = 6 && token.toList.all Char.isDigit

section

variable (lib : Library)

/-- `verifyTotp` at a time -/
def verifyTotp (token secret : String) (now : Nat) : Bool :=
  sixDigits token && secret ≠ "" && lib.verify secret token (now / 30000)

def Device.trusts (d : Device) (uid : UserId) (cookie : String) (now : Nat) : Bool :=
  d.user_id = uid && d.token_hash = lib.sha256 cookie && d.expires_at.all (now < ·)

/-- The code signs in, while the recovery email is the one it was sent to. -/
def OtpToken.counts (t : OtpToken) (uid : UserId) (code : String) (recovery : Option String) (now : Nat) : Bool :=
  t.user_id = uid && t.code_hash = lib.sha256 (trim code) && !t.used && now < t.expires_at && t.sent_to.isSome &&
    t.sent_to = recovery

namespace World

variable (w : World)

def addSession (session : Session) : World :=
  { w with sessions := w.sessions.insert w.nextSid session, nextSid := w.nextSid + 1 }

/-- The statement or command that the request waits for, and what the request does until its next one. -/
def run : Phase → Pick → Option (World × Phase)
  | .done, _ => none
  | _, .stop => some (w, .done)
  | .settings sid r, .next => some (w, if w.settings.internal_auth_disabled then .done else .findUser sid r)
  | .findUser _ r, .next =>
    if w.users.select (fun _ user => user.username = trim (lib.toLowerCase r.username)) = [] then some (w, .done) else none
  | .findUser sid r, .row id =>
    match w.users.lookup id with
    | none => none
    | some user =>
      if user.username ≠ trim (lib.toLowerCase r.username) then none
      else match user.password_hash with
        | none => some (w, .done)
        | some hash =>
          if !lib.compare r.password hash then some (w, .done)
          else if user.disabled then some (w, .refuse sid)
          else some (w, .leave sid r user
            { user := id, version := user.version, password := r.password, hash, needed := user.totp_enabled })
  | .leave sid r user chain, .next => some ({ w with sessions := w.sessions.erase sid }, .findDevice r user chain)
  | .findDevice r user chain, .next =>
    if r.cookie.any fun cookie => w.devices.select (fun _ d => d.trusts lib chain.user cookie w.now) ≠ [] then none
    else some (w, .policy user chain)
  | .findDevice r user chain, .row id =>
    match w.devices.lookup id, r.cookie with
    | some d, some cookie =>
      if d.trusts lib chain.user cookie w.now then
        some (w, .signIn { user := chain.user, row := user, chain := some chain, factor := .device d cookie w.now })
      else none
    | _, _ => none
  | .policy user chain, .next =>
    if user.totp_enabled then
      some (w, .pend { pendingUserId := chain.user, pendingTOTPExpiry := w.now + 5 * 60 * 1000, chain := some chain })
    else if w.settings.required then
      let pending : Session := { pendingUserId := chain.user, pendingTOTPExpiry := w.now + 10 * 60 * 1000, chain := some { chain with needed := true } }
      match user.recovery_email with
      | some toEmail => some (w, .otpDelete chain.user toEmail pending)
      | none => some (w, .pend { pending with pendingMFAEnrollment := true })
    else some (w, .signIn { user := chain.user, row := user, chain := some chain, factor := .none })
  | .otpDelete uid toEmail after, .next =>
    some ({ w with otps := w.otps.delete fun _ t => t.user_id = uid && !t.used }, .otpInsert uid toEmail after)
  | .otpInsert uid toEmail after, .text code =>
    let token : OtpToken := { user_id := uid, code_hash := lib.sha256 code, expires_at := w.now + 10 * 60 * 1000, sent_to := toEmail }
    some ({ w with otps := w.otps.insert w.nextOtp token, nextOtp := w.nextOtp + 1 }, .otpMail after)
  | .otpMail after, .next => some (w, match after with
    | some pending => .pend pending
    | none => .done)
  | .otpMail after, .failed => some (w, match after with
    | some pending => .pend { pending with pendingMFAEnrollment := true }
    | none => .done)
  | .refuse sid, .next =>
    let f (session : Session) := { session with pendingUserId := none, pendingTOTPExpiry := 0, pendingMFAEnrollment := false }
    some ({ w with sessions := w.sessions.modify sid f }, .done)
  | .timeout sid, .next =>
    let f (session : Session) := { session with pendingUserId := none, pendingTOTPExpiry := 0 }
    some ({ w with sessions := w.sessions.modify sid f }, .done)
  | .pend session, .next => some (w.addSession session, .done)
  | .elevate sid o remember, .next =>
    some ({ w with sessions := w.sessions.erase sid }, if remember then .trustSetting o else .signIn o)
  | .trustSetting o, .next =>
    let trustMs := getTrustDurationMs (w.settings.mfa_device_trust.getD "30d")
    some (w, if trustMs = 0 then .signIn o else .trustInsert o (w.now + trustMs))
  | .trustInsert o expires, .text token =>
    let device : Device := { user_id := o.user, token_hash := lib.sha256 token, expires_at := expires, chain := o.chain }
    some ({ w with devices := w.devices.insert w.nextDevice device, nextDevice := w.nextDevice + 1 }, .signIn o)
  | .signIn o, .next =>
    some ({ w.addSession { userId := o.user, chain := o.chain } with opened := o :: w.opened }, .done)
  | .challenge sid copy code remember, .next => some (w, match copy.pendingUserId with
    | none => .done
    | some uid => if copy.pendingTOTPExpiry < w.now then .timeout sid else .challengeUser sid uid copy.chain code remember)
  | .challengeUser sid uid chain code remember, .next => some (w, match w.users.lookup uid with
    | none => .done
    | some user =>
      match user.totp_secret with
      | none => .done
      | some secret =>
        if user.disabled then .refuse sid
        else if verifyTotp lib (normalizedCode code) secret w.now then
          .replay sid user chain { user := uid, secret, code := normalizedCode code, time := w.now, stored := some secret } remember
        else .done)
  | .replay sid user chain x remember, .next =>
    if (w.replay.lookup (x.user, x.code)).any (w.now < ·) then some (w, .done)
    else some ({ w with replay := w.replay.insert (x.user, x.code) (w.now + 90 * 1000), spent := x.ticket :: w.spent },
      .elevate sid { user := x.user, row := user, chain, factor := .totp x } remember)
  | .sendOtp copy, .next => some (w, match copy.pendingUserId with
    | none => .done
    | some uid => if copy.pendingMFAEnrollment || copy.pendingTOTPExpiry < w.now then .done else .sendTo uid)
  | .sendTo uid, .next => some (w, match (w.users.lookup uid).bind (·.recovery_email) with
    | none => .done
    | some toEmail => .otpDelete uid toEmail none)
  | .verify sid copy code remember, .next => some (w, match copy.pendingUserId with
    | none => .done
    | some uid =>
      if copy.pendingMFAEnrollment then .done
      else if copy.pendingTOTPExpiry < w.now then .timeout sid
      else .consume sid uid copy.chain code remember)
  | .consume _ uid _ code _, .next =>
    let recovery := (w.users.lookup uid).bind (·.recovery_email)
    if w.otps.select (fun _ t => t.counts lib uid code recovery w.now) = [] then some (w, .done) else none
  | .consume sid uid chain code remember, .row id =>
    let recovery := (w.users.lookup uid).bind (·.recovery_email)
    match w.otps.lookup id with
    | none => none
    | some t =>
      if t.counts lib uid code recovery w.now then
        some ({ w with otps := w.otps.modify id fun t => { t with used := true }, spent := .mail id :: w.spent },
          .consumed sid uid chain (.mail id t recovery w.now) remember)
      else none
  | .consumed sid uid chain factor remember, .next => some (w, match w.users.lookup uid with
    | none => .done
    | some user => if user.disabled then .refuse sid else .elevate sid { user := uid, row := user, chain, factor } remember)
  | .setup sid copy, .next => some (w, match copy.pendingUserId with
    | none => .done
    | some _ => if !copy.pendingMFAEnrollment || copy.pendingTOTPExpiry < w.now then .done else .setupSave sid)
  | .setupSave sid, .text secret =>
    let f (session : Session) := { session with pendingTOTPSecret := secret, pendingTOTPSetupExpiry := w.now + 10 * 60 * 1000 }
    some ({ w with sessions := w.sessions.modify sid f }, .done)
  | .enable sid copy code, .next => some (w, match copy.pendingUserId, copy.pendingTOTPSecret with
    | some uid, some secret =>
      if !copy.pendingMFAEnrollment || copy.pendingTOTPExpiry < w.now || copy.pendingTOTPSetupExpiry < w.now then .done
      else .enableVerify sid uid copy.chain secret code
    | _, _ => .done)
  | .enableVerify sid uid chain secret code, .next =>
    if verifyTotp lib (normalizedCode code) secret w.now then
      let x : Use := { user := uid, secret, code := normalizedCode code, time := w.now, stored := none }
      some ({ w with spent := x.ticket :: w.spent, enrolled := x.ticket :: w.enrolled }, .enroll sid chain x)
    else some (w, .done)
  | .enroll sid chain x, .next =>
    let f (user : User) := { user with totp_secret := some x.secret, totp_enabled := true }
    some ({ w with
        users := w.users.modify x.user f
        replaced := (w.users.lookup x.user).toList ++ w.replaced },
      .consumed sid x.user chain (.totp { x with stored := some x.secret }) false)
  | .reset token, .next =>
    let live (t : ResetToken) := t.token_hash = lib.sha256 (trim token) && w.now < t.expires_at && t.sent_to.isSome &&
      t.sent_to = (w.users.lookup t.user_id).bind (·.recovery_email)
    match w.resetTokens.find? fun _ t => live t with
    | none => some (w, .done)
    | some (id, t) => some ({ w with resetTokens := w.resetTokens.erase id }, .setHash t.user_id)
  | .setHash uid, .text hash =>
    match w.users.lookup uid with
    | none => some (w, .done)
    | some user =>
      let f (user : User) := { user with password_hash := some hash, version := user.version + 1 }
      some ({ w with users := w.users.modify uid f }, .scanFirst uid user.version)
  | .scanFirst uid version, .keys ks last =>
    if last && !w.sessions.keys.all (ks.contains ·) then none
    else some (w, .visit uid version ks (w.sessions.keys.filter fun k => !ks.contains k) last)
  | .scan uid version todo, .keys ks last =>
    if last && !todo.all fun k => ks.contains k || (w.sessions.lookup k).isNone then none
    else some (w, .visit uid version ks (todo.filter fun k => !ks.contains k) last)
  | .visit uid version [] todo last, .next => some (w, if last then .forget uid version else .scan uid version todo)
  | .visit uid version (k :: ks) todo last, .next =>
    some (w, if (w.sessions.lookup k).any (·.userId = some uid) then .del uid version k ks todo last
      else .visit uid version ks todo last)
  | .del uid version k ks todo last, .next =>
    some ({ w with sessions := w.sessions.erase k }, .visit uid version ks todo last)
  | .forget uid version, .next =>
    some ({ w with devices := w.devices.delete fun _ d => d.user_id = uid, resets := (uid, version) :: w.resets }, .done)
  | _, _ => none

end World

/-- What comes from elsewhere: time, the administrators, a user's own settings, and `/forgot-password`. -/
inductive Change
  | tick (ms : Nat)
  | settings (st : Settings)
  | totpOff (uid : UserId)
  /-- `/totp/enable` -/
  | totpOn (uid : UserId) (secret : String)
  | disabled (uid : UserId) (b : Bool)
  | recovery (uid : UserId) (toEmail : Option String) (changed : Bool)
  | forgot (id : Nat) (t : ResetToken)
  /-- A sign-out, or a session that expires. -/
  | signOut (sid : Sid)

def World.change (w : World) : Change → World
  | .tick ms => { w with now := w.now + ms }
  | .settings st => { w with settings := st }
  | .totpOff uid => { w with users := w.users.modify uid fun user => { user with totp_secret := none, totp_enabled := false } }
  | .totpOn uid secret => { w with users := w.users.modify uid fun user =>
      if user.totp_enabled then user else { user with totp_secret := some secret, totp_enabled := true } }
  | .disabled uid b => { w with users := w.users.modify uid fun user => { user with disabled := b } }
  | .recovery uid toEmail changed => { w with
      users := w.users.modify uid fun user => { user with recovery_email := toEmail }
      resetTokens := if changed then w.resetTokens.delete fun _ t => t.user_id = uid else w.resetTokens
      otps := if changed then w.otps.delete fun _ t => t.user_id = uid else w.otps }
  | .forgot id t => { w with resetTokens := w.resetTokens.insert id t }
  | .signOut sid => { w with sessions := w.sessions.erase sid }

inductive Request
  | login (sid : Sid) (r : Login)
  | challenge (sid : Sid) (code : String) (remember : Bool)
  | sendOtp (sid : Sid)
  | verify (sid : Sid) (code : String) (remember : Bool)
  | setup (sid : Sid)
  | enable (sid : Sid) (code : String)
  | reset (token : String)

/-- The session of the request is read first; one that is not stored is empty. -/
def World.receive (w : World) (r : Request) : Phase :=
  let load sid := (w.sessions.lookup sid).getD {}
  match r with
  | .login sid r => .settings sid r
  | .challenge sid code remember => .challenge sid (load sid) code remember
  | .sendOtp sid => .sendOtp (load sid)
  | .verify sid code remember => .verify sid (load sid) code remember
  | .setup sid => .setup sid (load sid)
  | .enable sid code => .enable sid (load sid) code
  | .reset token => .reset token

structure State where
  world : World
  requests : List Phase

inductive Label
  | change (c : Change)
  | receive (r : Request)
  /-- Request `i` goes on. -/
  | run (i : Nat) (pick : Pick)

def step (s : State) : Label → Option State
  | .change c => some { s with world := s.world.change c }
  | .receive r => some { s with requests := s.requests ++ [s.world.receive r] }
  | .run i pick =>
    match s.requests[i]? with
    | none => none
    | some p => (s.world.run lib p pick).map fun (w, p') => { world := w, requests := s.requests.set i p' }

structure World.Initial (w : World) : Prop where
  sessions : w.sessions = ∅
  devices : w.devices = ∅
  otps : w.otps = ∅
  replay : w.replay = ∅
  opened : w.opened = []
  spent : w.spent = []
  replaced : w.replaced = []
  enrolled : w.enrolled = []
  resets : w.resets = []

/-- Nobody is signed in, and no request has come. -/
def system : TransitionSystem State Label where
  init s := s.world.Initial ∧ s.requests = []
  step := step lib

end

/-- One password before a reset and one after it, and the code of the test vector at 59 s. -/
def exampleLibrary : Library where
  toLowerCase := id
  compare password hash := (password, hash) ∈ [("old password", "hash 0"), ("new password", "hash 1")]
  sha256 := id
  verify secret token period := secret = "GEZDGNBVGY3TQOJQ" && token = "287082" && period = 1

def exampleState (user : User) (settings : Settings) : State where
  world := {
    now := 59000
    settings
    users := (∅ : Table UserId User).insert 1 user
    sessions := ∅
    nextSid := 0
    devices := ∅
    nextDevice := 0
    otps := ∅
    nextOtp := 0
    resetTokens := (∅ : Table Nat ResetToken).insert 0
      { user_id := 1, token_hash := "token", expires_at := 3600000, sent_to := "anna@example.com" }
    replay := ∅ }
  requests := []

theorem exampleState_init {lib : Library} {user : User} {settings : Settings} :
    (system lib).init (exampleState user settings) := ⟨⟨rfl, rfl, rfl, rfl, rfl, rfl, rfl, rfl, rfl⟩, rfl⟩

end MailExpert.SignIn
