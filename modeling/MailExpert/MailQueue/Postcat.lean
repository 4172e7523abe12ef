import MailExpert.Forwarding.Headers

/-!
# A queued letter as `postcat` prints it

`parsePostcat` of `services/mailNode/mailQueue.js`, and the dump that Postfix makes of a queue file: section lines around the envelope records, the
message text as it is and the records it took from the headers.
-/

namespace MailExpert.MailQueue

open Encodings (isSpace)
open Sanitizer (Text codes)
open Forwarding (trim isBlank stripCr)

def MAX_BODY_BYTES : Nat := 64 * 1024

inductive Section
  | envelopeRecords
  | messageContents
  | headerExtracted
  | messageFileEnd
deriving DecidableEq

def Section.title : Section → Text
  | .envelopeRecords => codes "ENVELOPE RECORDS"
  | .messageContents => codes "MESSAGE CONTENTS"
  | .headerExtracted => codes "HEADER EXTRACTED"
  | .messageFileEnd => codes "MESSAGE FILE END"

def stars : Text := codes "***"

/-- `*** <title> <where> ***` -/
def sectionLine (section_ : Section) (where_ : Text) : Text := stars ++ 32 :: section_.title ++ 32 :: where_ ++ 32 :: stars

/-- What stands in place of `\S+`, if the line is the section's. -/
def whereOf (line : Text) (section_ : Section) : Option Text :=
  let head := stars ++ 32 :: section_.title ++ [32]
  let tail := 32 :: stars
  let where_ := (line.drop head.length).take (line.length - head.length - tail.length)
  if line = head ++ where_ ++ tail ∧ where_ ≠ [] ∧ where_.all (fun c => !isSpace c) then some where_ else none

/-- `SECTION_RE.exec(line)` -/
def sectionOf (line : Text) : Option (Section × Text) :=
  [Section.envelopeRecords, .messageContents, .headerExtracted, .messageFileEnd].findSome? fun section_ =>
    (whereOf line section_).map fun where_ => (section_, where_)

structure Header where
  name : Text
  value : Text
deriving DecidableEq

def addHeaderLine (headers : List Header) (line : Text) : List Header :=
  match headers.getLast?, line.head?.any isBlank with
  | some last, true => headers.dropLast ++ [{ last with value := last.value ++ 32 :: trim line }]
  | _, _ =>
    let colon := line.idxOf 58
    if colon = 0 ∨ line.length ≤ colon then headers
    else headers ++ [⟨trim (line.take colon), trim (line.drop (colon + 1))⟩]

def parseHeaders (lines : List Text) : List Header := lines.foldl addHeaderLine []

structure Envelope where
  sender : Option Text := none
  recipients : List Text := []
  doneRecipients : List Text := []
  arrival : Option Text := none
deriving DecidableEq

structure Result where
  queueId : Option Text
  queue : Option Text
  envelope : Envelope
  headers : List Header
  bodyBytes : Nat
  body : Option Text
  bodyTruncated : Bool
  dumpTruncated : Bool
deriving DecidableEq

/-- The bytes of a UTF-16 text, U+FFFD for half of a pair. -/
def utf8 : Text → List UInt8
  | [] => []
  | c :: rest =>
    if c < 0x80 then UInt8.ofNat c :: utf8 rest
    else if c < 0x800 then UInt8.ofNat (0xc0 + c / 64) :: UInt8.ofNat (0x80 + c % 64) :: utf8 rest
    else if 0xd800 ≤ c ∧ c < 0xdc00 then
      match rest with
      | d :: rest =>
        if 0xdc00 ≤ d ∧ d < 0xe000 then
          let code := 0x10000 + (c - 0xd800) * 0x400 + (d - 0xdc00)
          UInt8.ofNat (0xf0 + code / 0x40000) :: UInt8.ofNat (0x80 + code / 0x1000 % 64) :: UInt8.ofNat (0x80 + code / 64 % 64) ::
            UInt8.ofNat (0x80 + code % 64) :: utf8 rest
        else 0xef :: 0xbf :: 0xbd :: utf8 (d :: rest)
      | [] => [0xef, 0xbf, 0xbd]
    else if 0xdc00 ≤ c ∧ c < 0xe000 then 0xef :: 0xbf :: 0xbd :: utf8 rest
    else UInt8.ofNat (0xe0 + c / 0x1000) :: UInt8.ofNat (0x80 + c / 64 % 64) :: UInt8.ofNat (0x80 + c % 64) :: utf8 rest

def byteLength (t : Text) : Nat := (utf8 t).length

/-- `Buffer.from(t).subarray(0, MAX_BODY_BYTES).toString('utf8')` -/
def cutBody (t : Text) : Text := Encodings.Utf8.decode ((utf8 t).take MAX_BODY_BYTES)

/-- `text.replace(/\r\n/g, '\n')` -/
def dropCrLf : Text → Text
  | 13 :: 10 :: rest => 10 :: dropCrLf rest
  | c :: rest => c :: dropCrLf rest
  | [] => []

/-- What the loop over the lines has read. -/
structure Reading where
  current : Option Section := none
  where_ : Option Text := none
  sections : Section → List Text := fun _ => []

def Reading.line (reading : Reading) (line : Text) : Reading :=
  match sectionOf line with
  | some (section_, where_) => { reading with current := some section_, where_ := some (reading.where_.getD where_) }
  | none => match reading.current with
    | some section_ => { reading with sections := Function.update reading.sections section_ (reading.sections section_ ++ [line]) }
    | none => reading

/-- `[a-z_]` -/
def isNameChar (c : Nat) : Bool := (97 ≤ c && c ≤ 122) || c = 95

def isLineEnd (c : Nat) : Bool := c ∈ [10, 13, 0x2028, 0x2029]

/-- `/^([a-z_]+):\s*(.*)$/` -/
def recordOf (line : Text) : Option (Text × Text) :=
  let name := line.takeWhile isNameChar
  match line.drop name.length with
  | 58 :: rest =>
    let value := rest.dropWhile isSpace
    if name = [] ∨ value.any isLineEnd then none else some (name, value)
  | _ => none

section

variable (toLowerCase : Text → Text)

def addAddress (list : List Text) (value : Text) : List Text :=
  let address := toLowerCase (trim value)
  if address = [] ∨ address ∈ list then list else list ++ [address]

def addRecord (envelope : Envelope) (record : Text × Text) : Envelope :=
  if record.1 = codes "sender" then { envelope with sender := some (envelope.sender.getD (toLowerCase record.2)) }
  else if record.1 = codes "recipient" then { envelope with recipients := addAddress toLowerCase envelope.recipients record.2 }
  else if record.1 = codes "done_recipient" then { envelope with doneRecipients := addAddress toLowerCase envelope.doneRecipients record.2 }
  else if record.1 = codes "message_arrival_time" then { envelope with arrival := some record.2 }
  else envelope

/-- `records` are those that the lines of both sections hold. -/
def envelopeOf (records : List (Text × Text)) : Envelope :=
  let envelope := records.foldl (addRecord toLowerCase) {}
  { envelope with recipients := envelope.recipients.filter fun address => address ∉ envelope.doneRecipients }

/-- The lines before the first empty one, and those behind it. -/
def headerLines (content : List Text) : List Text := content.takeWhile (· ≠ [])

def bodyText (content : List Text) : Text := [10].intercalate (content.drop ((headerLines content).length + 1))

def parsePostcat (text : Text) (withBody truncated : Bool) : Option Result :=
  if ¬codes "*** ENVELOPE RECORDS" <:+: text then none
  else
    let reading := ((dropCrLf text).splitOn 10).foldl Reading.line {}
    let parts := (reading.where_.getD []).splitOn 47
    let queue := if 1 < parts.length then parts.head? else none
    let nonempty : Option Text → Option Text := Option.filter fun t => decide (t ≠ [])
    let content := reading.sections .messageContents
    let bodyBytes := byteLength (bodyText content)
    let cut := decide (MAX_BODY_BYTES < bodyBytes)
    some {
      queueId := nonempty parts.getLast?
      queue := nonempty queue
      envelope := envelopeOf toLowerCase ((reading.sections .envelopeRecords ++ reading.sections .headerExtracted).filterMap recordOf)
      headers := parseHeaders (headerLines content)
      bodyBytes
      body := if withBody then some (if cut then cutBody (bodyText content) else bodyText content) else none
      bodyTruncated := withBody && (cut || truncated)
      dumpTruncated := truncated }

end

/-- A record as Postfix prints it: `name: value` on a line. -/
structure Record where
  name : Text
  value : Text
  named : name ≠ [] ∧ name.all isNameChar
  line : 10 ∉ value

def Record.print (record : Record) : Text := record.name ++ 58 :: 32 :: record.value

structure QueueFile where
  where_ : Text
  records : List Record
  /-- The lines of the message text, without their ends. -/
  message : List Text
  extracted : List Record
  placed : where_ ≠ [] ∧ where_.all fun c => !isSpace c
  lines : ∀ line ∈ message, 10 ∉ line

def QueueFile.lines' (file : QueueFile) : List Text :=
  sectionLine .envelopeRecords file.where_ :: file.records.map Record.print ++
    sectionLine .messageContents file.where_ :: file.message ++
    sectionLine .headerExtracted file.where_ :: file.extracted.map Record.print ++ [sectionLine .messageFileEnd file.where_]

/-- `postcat -q` -/
def QueueFile.dump (file : QueueFile) : Text := (file.lines'.map (· ++ [10])).flatten

end MailExpert.MailQueue
