import MailExpert.Forwarding.Headers
import MailExpert.Lib.Fields

/-!
# Lines of the Postfix log

`parsePostfixEntry` and `correlateByQueueId` of `services/mailNode/postfixLog.js`, and `logSignals` of `services/mailNode/nodeAlerts.js`.
`toLowerCase` is a parameter, and so is which delivery codes an alert is about.
-/

namespace MailExpert.PostfixLog

open Encodings (isSpace)
open Sanitizer (Text codes)
open Forwarding (trim)

/-- `LOG_EVENTS` -/
inductive LogEvent
  | sent
  | deferred
  | bounced
  | expired
  | undeliverable
  | deliverable
  | received
  | message_id
  | queued
  | notification
  | removed
  | held
  | released
  | deleted
  | rejected
  | other
deriving DecidableEq

/-- `DELIVERY_STATUSES` -/
inductive DeliveryStatus
  | sent
  | deferred
  | bounced
  | undeliverable
  | deliverable
deriving DecidableEq

def DeliveryStatus.word : DeliveryStatus → Text
  | .sent => codes "sent"
  | .deferred => codes "deferred"
  | .bounced => codes "bounced"
  | .undeliverable => codes "undeliverable"
  | .deliverable => codes "deliverable"

def DeliveryStatus.event : DeliveryStatus → LogEvent
  | .sent => .sent
  | .deferred => .deferred
  | .bounced => .bounced
  | .undeliverable => .undeliverable
  | .deliverable => .deliverable

/-- `DELIVERY_STATUSES.has(status)` -/
def deliveryStatus? (status : Text) : Option DeliveryStatus :=
  [DeliveryStatus.sent, .deferred, .bounced, .undeliverable, .deliverable].find? fun s => s.word = status

def isDigit (c : Nat) : Bool := 48 ≤ c && c ≤ 57

def isAlnum (c : Nat) : Bool := isDigit c || (65 ≤ c && c ≤ 90) || (97 ≤ c && c ≤ 122)

/-- `[0-9A-F]` -/
def isHex (c : Nat) : Bool := isDigit c || (65 ≤ c && c ≤ 70)

/-- `LONG_ID_CHARS` -/
def isLongIdChar (c : Nat) : Bool :=
  isDigit c || c ∈ codes "BCDFGHJKLMNPQRSTVWXYZ" || c ∈ codes "bcdfghjklmnpqrstvwxy"

/-- `QUEUE_ID_RE.test(id)` -/
def isQueueId (id : Text) : Bool :=
  (id.all isHex && 6 ≤ id.length && id.length ≤ 20) ||
    (12 ≤ id.length && id.length ≤ 24 &&
      match id.span isLongIdChar with
      | (_ :: _, 122 :: inode) => inode ≠ [] && inode.all isLongIdChar
      | _ => false)

/-- `[\s,]` -/
def isSep (c : Nat) : Bool := isSpace c || c = 44

def fieldAt (name l : Text) : Option Text := ((name ++ codes "=").isPrefixOf? l).map fun value => value.takeWhile fun c => !isSep c

def field (message name : Text) : Option Text := Fields.find isSep (fieldAt name) true message

def addressAt (name l : Text) : Option Text :=
  ((name ++ codes "=<").isPrefixOf? l).bind fun value => if 62 ∈ value then some (value.takeWhile (· ≠ 62)) else none

def isLower (c : Nat) : Bool := 97 ≤ c && c ≤ 122

/-- The word behind `status=`, and what follows it. -/
def statusAt (l : Text) : Option (Text × Text) :=
  ((codes "status=").isPrefixOf? l).bind fun value =>
    if value.takeWhile isLower = [] then none else some (value.takeWhile isLower, value.dropWhile isLower)

def statusMatch (rest : Text) : Option (Text × Text) := Fields.find isSep statusAt true rest

def closing (body : Text) : Text := if body.getLast? = some 41 then body.dropLast else body

/-- The text in parentheses that begins here. -/
def statusText (rest : Text) : Option Text :=
  match rest.dropWhile isSpace with
  | 40 :: body => some (closing body)
  | _ => none

/-! ## Entries -/

structure Entry where
  /-- Seconds. -/
  time : Option Nat
  program : Text
  message : Text

/-- What a line says of a queued message. -/
structure Said where
  event : LogEvent
  queueId : Option Text := none
  to_ : Option Text := none
  origTo : Option Text := none
  from_ : Option Text := none
  relay : Option Text := none
  dsn : Option Text := none
  status : Option Text := none
  statusText : Option Text := none
  saslUsername : Option Text := none
deriving DecidableEq

structure Line where
  epoch : Option Nat
  service : Text
  messageId : Option Text
  said : Said

def isBreak (c : Nat) : Bool := c = 10 || c = 13

def flush (run : Text) : Text := if run.any isBreak then [32] else run

/-- White space that holds a line break becomes a blank; `run` is the white space before. -/
def foldRun (run : Text) : Text → Text
  | [] => flush run
  | c :: l => if isSpace c then foldRun (run ++ [c]) l else flush run ++ c :: foldRun [] l

/-- `message.replace(/\s*[\r\n]+\s*/g, ' ').trim()` -/
def oneLine (message : Text) : Text := trim (foldRun [] message)

/-- The program without the process id. -/
def withoutPid (program : Text) : Text :=
  match program.reverse with
  | 93 :: l =>
    match l.span isDigit with
    | (_ :: _, 91 :: name) => name.reverse
    | _ => program
  | _ => program

/-- `program.split('/').pop()` -/
def serviceOf (program : Text) : Text := (withoutPid program).rtakeWhile (· ≠ 47)

/-- `.` matches it. -/
def inLine (c : Nat) : Bool := !isBreak c && c ≠ 0x2028 && c ≠ 0x2029

def head (message : Text) : Option Text × Text :=
  let id := message.takeWhile isAlnum
  match message.dropWhile isAlnum with
  | 58 :: 32 :: rest =>
    if isQueueId id ∧ rest.all inLine then (some id, rest)
    else if id = codes "NOQUEUE" then (none, rest) else (none, message)
  | _ => (none, message)

/-- `/^from=<[^>]*>, size=/.test(rest)` -/
def isQueued (rest : Text) : Bool :=
  match (codes "from=<").isPrefixOf? rest with
  | some l => (codes ">, size=").isPrefixOf (l.dropWhile (· ≠ 62))
  | none => false

/-- `/^(milter-)?(reject|discard|hold)\b/.test(rest) || /^reject:/.test(rest)` -/
def isRejected (rest : Text) : Bool :=
  let l := ((codes "milter-").isPrefixOf? rest).getD rest
  [l, rest].any fun l => [codes "reject", codes "discard", codes "hold"].any fun verb =>
    match verb.isPrefixOf? l with
    | some after => !(after.head?.any Sanitizer.isWord)
    | none => false

def eventOf (service rest : Text) (status : Option Text) : LogEvent :=
  if status = some (codes "expired") then .expired
  else match status.bind deliveryStatus? with
  | some s => s.event
  | none =>
    if (codes "message-id=").isPrefixOf rest then .message_id
    else if service = codes "qmgr" ∧ rest = codes "removed" then .removed
    else if service = codes "postsuper" ∧ rest = codes "placed on hold" then .held
    else if service = codes "postsuper" ∧ rest = codes "released from hold" then .released
    else if service = codes "postsuper" ∧ rest = codes "removed" then .deleted
    else if service = codes "qmgr" ∧ isQueued rest then .queued
    else if (codes "client=").isPrefixOf rest ∨ (service = codes "pickup" ∧ (codes "uid=").isPrefixOf rest) then .received
    else if service = codes "bounce" ∧ rest.tails.any (codes "notification: ").isPrefixOf then .notification
    else if isRejected rest then .rejected
    else .other

section

variable (toLowerCase : Text → Text)

def address (message name : Text) : Option Text := (Fields.find isSep (addressAt name) true message).map toLowerCase

/-- `field(rest, 'sasl_username')?.toLowerCase() || null` -/
def userOf (value : Option Text) : Option Text := (value.map toLowerCase).filter (· ≠ [])

def saidOf (service : Text) (queueId : Option Text) (rest : Text) : Said where
  event := eventOf service rest ((statusMatch rest).map Prod.fst)
  queueId := queueId
  to_ := address toLowerCase rest (codes "to")
  origTo := address toLowerCase rest (codes "orig_to")
  from_ := address toLowerCase rest (codes "from")
  relay := field rest (codes "relay")
  dsn := field rest (codes "dsn")
  status := (statusMatch rest).map Prod.fst
  statusText := (statusMatch rest).bind fun m => statusText m.2
  saslUsername := userOf toLowerCase (field rest (codes "sasl_username"))

def parsePostfixEntry (item : Entry) : Option Line :=
  let message := oneLine item.message
  if message = [] then none
  else
    let service := serviceOf item.program
    let (queueId, rest) := head message
    some {
      epoch := (item.time.filter (0 < ·)).map (· * 1000)
      service := service
      messageId := (((codes "message-id=").isPrefixOf? rest).map fun l => l.takeWhile fun c => !isSpace c).filter (· ≠ [])
      said := saidOf toLowerCase service queueId rest
    }

/-- `parseRelay(relay).relayHost` -/
def relayHost (relay : Option Text) : Option Text :=
  let isName (c : Nat) : Bool := c ≠ 91 && c ≠ 93
  relay.bind fun relay =>
    match relay.dropWhile isName with
    | 91 :: l =>
      match l.dropWhile (· ≠ 93) with
      | [93] => (some (toLowerCase (relay.takeWhile isName))).filter (· ≠ [])
      | 93 :: 58 :: c :: port =>
        if (c :: port).all isDigit then (some (toLowerCase (relay.takeWhile isName))).filter (· ≠ []) else some (toLowerCase relay)
      | _ => some (toLowerCase relay)
    | _ => if relay = [] then none else some (toLowerCase relay)

inductive RelayKind
  | local_
  | eop
  | other
deriving DecidableEq

/-- `LOCAL_SERVICES` -/
def LOCAL_SERVICES : List Text := [codes "lmtp", codes "local", codes "virtual", codes "pipe", codes "discard"]

/-- `host.replace(/\.$/, '')` -/
def withoutDot (host : Text) : Text := if host.getLast? = some 46 then host.dropLast else host

local instance : LawfulBEq Text := inferInstance

def relayKind (eopHost : Text) (service : Text) (said : Said) : RelayKind :=
  let host := relayHost toLowerCase said.relay
  if service ∈ LOCAL_SERVICES then .local_
  else if host = some (codes "local") ∨ host = some (codes "virtual") then .local_
  else if eopHost ≠ [] ∧ withoutDot (host.getD []) ≠ [] ∧ withoutDot (host.getD []) = withoutDot (toLowerCase eopHost) then .eop
  else .other

inductive AlertKey
  | connector_blocked
  | tenant_attribution
  | terrl_exceeded
  | eop_bypass
deriving DecidableEq

def SIGNAL_WINDOW_MS : Nat := 60 * 60 * 1000

/-- `FAILED_EVENTS.has(line.event)` -/
def LogEvent.isFailed : LogEvent → Bool
  | .deferred | .bounced | .expired | .undeliverable => true
  | _ => false

/-- What an alert counts; `refused` is what `matchDeliveryCodes` finds in a code and a text. -/
def counts (refused : AlertKey → Option Text → Text → Bool) (now : Nat) (eopHost : Text) (key : AlertKey) (epoch : Option Nat) (service : Text)
    (said : Said) : Bool :=
  epoch.any (fun epoch => now ≤ epoch + SIGNAL_WINDOW_MS) &&
    match key with
    | .eop_bypass => eopHost ≠ [] && said.event = .sent && relayKind toLowerCase eopHost service said = .other
    | key => said.event.isFailed && refused key said.dsn (said.statusText.getD [])

def logSignals (refused : AlertKey → Option Text → Text → Bool) (now : Nat) (eopHost : Text) (lines : List Line) : List (AlertKey × List Line) :=
  [AlertKey.connector_blocked, .tenant_attribution, .terrl_exceeded, .eop_bypass].filterMap fun key =>
    let hits := lines.filter fun line => counts toLowerCase refused now eopHost key line.epoch line.service line.said
    if hits.isEmpty then none else some (key, hits)

end

structure Message where
  messageId : Option Text := none
  from_ : Option Text := none
  saslUsername : Option Text := none
  deliveries : List Line := []
  removed : Bool := false
  lines : List Line := []

/-- `DELIVERY_STATUSES.has(line.event) || line.event === 'expired'` -/
def LogEvent.isDelivery : LogEvent → Bool
  | .sent | .deferred | .bounced | .undeliverable | .deliverable | .expired => true
  | _ => false

def Message.add (message : Message) (line : Line) : Message where
  messageId := line.messageId.or message.messageId
  from_ := if line.said.event = .queued ∨ line.said.event = .received then line.said.from_.or message.from_ else message.from_
  saslUsername := line.said.saslUsername.or message.saslUsername
  deliveries := if line.said.event.isDelivery then message.deliveries ++ [line] else message.deliveries
  removed := message.removed || line.said.event = .removed || line.said.event = .deleted
  lines := message.lines ++ [line]

def addLine (messages : Table Text Message) (line : Line) : Table Text Message :=
  match line.said.queueId with
  | none => messages
  | some id => messages.insert id (((messages.lookup id).getD {}).add line)

def correlateByQueueId (lines : List Line) : Table Text Message := lines.foldl addLine ∅

end MailExpert.PostfixLog
