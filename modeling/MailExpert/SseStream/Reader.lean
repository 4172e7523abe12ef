import MailExpert.Forwarding.Headers

/-!
# Server-sent events

`readSseData` of `services/aiHttp.js` and `parseCodexSse` of `services/openaiCodexResponses.js`. A response gives its body in chunks of
bytes, and nothing aborts it. What `JSON.parse` makes of a text is a parameter.
-/

namespace MailExpert.SseStream

open Encodings.Utf8 (State lead units)
open Sanitizer (Text codes)
open Forwarding (trim)

def nextByte : State → UInt8 → List Nat × State
  | .start, b => ((lead b.toNat).1.toList, (lead b.toNat).2)
  | .more needed code lower upper, b =>
    if lower ≤ b.toNat ∧ b.toNat ≤ upper then
      if needed = 1 then ([code * 64 + b.toNat % 64], .start)
      else ([], .more (needed - 1) (code * 64 + b.toNat % 64) 0x80 0xbf)
    else (0xfffd :: (lead b.toNat).1.toList, (lead b.toNat).2)

/-- `new TextDecoder()` -/
structure Decoder where
  state : State
  bomSeen : Bool

def Decoder.new : Decoder := ⟨.start, false⟩

/-- A byte order mark in front of the stream is dropped. -/
def dropBom : Bool → List Nat → List Nat × Bool
  | true, cs => (cs, true)
  | false, [] => ([], false)
  | false, c :: cs => (if c = 0xfeff then cs else c :: cs, true)

def Decoder.next (d : Decoder) (b : UInt8) : Text × Decoder :=
  let (cs, state) := nextByte d.state b
  let (cs, bomSeen) := dropBom d.bomSeen cs
  (cs.flatMap units, ⟨state, bomSeen⟩)

/-- `decoder.decode(value, { stream: true })` -/
def Decoder.decode : Decoder → List UInt8 → Text × Decoder
  | d, [] => ([], d)
  | d, b :: l =>
    let (text, d') := d.next b
    let (rest, last) := d'.decode l
    (text ++ rest, last)

/-- `decoder.decode()` -/
def Decoder.flush (d : Decoder) : Text :=
  match d.state with
  | .start => []
  | .more .. => [0xfffd]

/-! ## Events -/

def isHigh (c : Nat) : Bool := 0xd800 ≤ c && c < 0xdc00

def isLow (c : Nat) : Bool := 0xdc00 ≤ c && c < 0xe000

def unitLength (c : Nat) : Nat := if c < 0x80 then 1 else if c < 0x800 then 2 else 3

/-- The bytes of a text in UTF-8; half of a surrogate pair counts as U+FFFD. -/
def byteLength : Text → Nat
  | [] => 0
  | [c] => unitLength c
  | c :: c' :: t => if isHigh c && isLow c' then 4 + byteLength t else unitLength c + byteLength (c' :: t)

/-- What follows `\r?\n\r?\n` in front of a text. -/
def boundaryAt : Text → Option Text
  | 10 :: 10 :: t => some t
  | 10 :: 13 :: 10 :: t => some t
  | 13 :: 10 :: 10 :: t => some t
  | 13 :: 10 :: 13 :: 10 :: t => some t
  | _ => none

/-- `buffer.match(/\r?\n\r?\n/)`: the text before the boundary and the one behind it. -/
def splitEvent : Text → Option (Text × Text)
  | [] => none
  | c :: t =>
    match boundaryAt (c :: t) with
    | some rest => some ([], rest)
    | none => (splitEvent t).map fun r => (c :: r.1, r.2)

/-- `block.split(/\r?\n/)` -/
def lines : Text → List Text
  | [] => [[]]
  | 13 :: 10 :: t => [] :: lines t
  | 10 :: t => [] :: lines t
  | c :: t =>
    match lines t with
    | [] => [[c]]
    | l :: ls => (c :: l) :: ls

/-- `line.slice(5).replace(/^ /, '')` -/
def lineData (line : Text) : Text :=
  match line.drop 5 with
  | 32 :: t => t
  | t => t

def dataOf (block : Text) : Text := [10].intercalate (((lines block).filter (codes "data:").isPrefixOf).map lineData)

/-- `parseBlock`; `none` where it throws `event_too_large`. -/
def parseBlock (maxEventBytes : Nat) (block : Text) : Option Text :=
  if maxEventBytes < byteLength block then none else some (dataOf block)

/-- `if (data) yield data` -/
def yielded (data : Text) : List Text := if data = [] then [] else [data]

theorem length_of_boundaryAt {t rest : Text} (h : boundaryAt t = some rest) : rest.length < t.length := by
  unfold boundaryAt at h
  split at h <;> cases h <;> simp only [List.length_cons] <;> omega

theorem length_of_splitEvent {t block rest : Text} (h : splitEvent t = some (block, rest)) : rest.length < t.length := by
  induction t generalizing block with
  | nil => cases h
  | cons c t ih =>
    unfold splitEvent at h
    split at h
    · next hb =>
      cases h
      exact length_of_boundaryAt hb
    · obtain ⟨r, hr, heq⟩ := Option.map_eq_some_iff.mp h
      cases heq
      exact (ih hr).trans (Nat.lt_succ_self _)

/-- The loop over the events in the buffer: what it yields and the buffer it leaves, `none` after a throw. -/
def drain (maxEventBytes : Nat) (buffer : Text) : List Text × Option Text :=
  match h : splitEvent buffer with
  | none => ([], some buffer)
  | some (block, rest) =>
    match parseBlock maxEventBytes block with
    | none => ([], none)
    | some data =>
      have := length_of_splitEvent h
      let (events, left) := drain maxEventBytes rest
      (yielded data ++ events, left)
termination_by buffer.length

inductive Ending
  | normal
  | eventTooLarge
deriving DecidableEq

def finish (maxEventBytes : Nat) (buffer : Text) : List Text × Ending :=
  if trim buffer = [] then ([], .normal)
  else
    match parseBlock maxEventBytes buffer with
    | none => ([], .eventTooLarge)
    | some data => (yielded data, .normal)

/-- The loop over the chunks, with the buffer so far. -/
def readChunks (maxEventBytes : Nat) : Decoder → Text → List (List UInt8) → List Text × Ending
  | decoder, buffer, [] => finish maxEventBytes (buffer ++ decoder.flush)
  | decoder, buffer, chunk :: chunks =>
    let (text, decoder') := decoder.decode chunk
    match drain maxEventBytes (buffer ++ text) with
    | (events, none) => (events, .eventTooLarge)
    | (events, some left) =>
      if maxEventBytes < byteLength left then (events, .eventTooLarge)
      else
        let (rest, ending) := readChunks maxEventBytes decoder' left chunks
        (events ++ rest, ending)

def readSseData (maxEventBytes : Nat) (chunks : List (List UInt8)) : List Text × Ending := readChunks maxEventBytes .new [] chunks

/-! ## Codex responses -/

/-- What `parseCodexSse` can see of a parsed value; any other value has no fields and counts as true or not. -/
inductive Json
  | null
  | text (t : Text)
  | other (truthy : Bool)
  | object (fields : List (Text × Json))

/-- `value?.key` -/
def Json.field (j : Option Json) (key : Text) : Option Json :=
  match j with
  | some (.object fields) => fields.lookup key
  | _ => none

def Json.truthy : Option Json → Bool
  | none | some .null => false
  | some (.text t) => t ≠ []
  | some (.other b) => b
  | some (.object _) => true

/-- `a || b` -/
def Json.or (a b : Option Json) : Option Json := if truthy a then a else b

/-- White space as `\s+` runs of it, each a single space. -/
def squeezed (run : Bool) : Text → Text
  | [] => []
  | c :: t => if Encodings.isSpace c then (if run then squeezed true t else 32 :: squeezed true t) else c :: squeezed false t

def sanitizeText (value : Option Json) (maxLength : Nat) : Text :=
  match value with
  | some (.text t) => (trim (squeezed false (t.map fun c => if c ≤ 0x1f || (0x7f ≤ c && c ≤ 0x9f) then 32 else c))).take maxLength
  | _ => []

def OUTPUT_LIMIT_CHARS : Nat := 2 * 1024 * 1024
def EVENT_LIMIT_BYTES : Nat := 256 * 1024

/-- How `parseCodexSse` ends: as it should, with a `CodexResponseError`, or with the `TypeError` for a field of `null`. -/
inductive Outcome
  | completed
  | failed (message : Text) (code : Option Text)
  | typeError

/-- `eventError` -/
def eventError (event : Json) (fallback : Text) : Outcome :=
  let nested := Json.field (some event) (codes "error")
  let responseError := Json.field (Json.field (some event) (codes "response")) (codes "error")
  let raw := Json.or (Json.or (Json.field (some event) (codes "message")) (Json.field nested (codes "message")))
    (Json.field responseError (codes "message"))
  let message := sanitizeText raw 1000
  let code := sanitizeText (Json.or (Json.or (Json.field (some event) (codes "code")) (Json.field nested (codes "code")))
    (Json.field responseError (codes "code"))) 100
  .failed (if message = [] then fallback else fallback ++ codes ": " ++ message) (if code = [] then none else some code)

/-- `parseEventData`; `none` where it throws. -/
def parseEventData (parse : Text → Option Json) (data : Text) : Option Json :=
  if trim data = codes "[DONE]" then some (.object [(codes "type", .text (codes "done"))]) else parse data

/-- What one event does: it ends the response, or it goes on with a delta, empty where nothing is yielded. -/
inductive Handled
  | ends (outcome : Outcome)
  | goesOn (delta : Text) (outputChars : Nat)

def Json.isText (value : Option Json) (t : Text) : Bool :=
  match value with
  | some (.text u) => u = t
  | _ => false

def handle (parse : Text → Option Json) (outputChars : Nat) (data : Text) : Handled :=
  match parseEventData parse data with
  | none => .ends (.failed (codes "Malformed ChatGPT response event") none)
  | some .null => .ends .typeError
  | some parsed =>
    let type := Json.field (some parsed) (codes "type")
    if Json.isText type (codes "done") || Json.isText type (codes "response.completed") then .ends .completed
    else if Json.isText type (codes "response.output_text.delta") then
      let delta := match Json.field (some parsed) (codes "delta") with
        | some (.text t) => t
        | _ => []
      if OUTPUT_LIMIT_CHARS < outputChars + delta.length then .ends (.failed (codes "ChatGPT response output was too large") none)
      else .goesOn delta (outputChars + delta.length)
    else if Json.isText type (codes "response.failed") then .ends (eventError parsed (codes "ChatGPT response failed"))
    else if Json.isText type (codes "response.incomplete") then .ends (eventError parsed (codes "ChatGPT response was incomplete"))
    else if Json.isText type (codes "error") then .ends (eventError parsed (codes "ChatGPT stream error"))
    else .goesOn [] outputChars

def tooLarge : Outcome := .failed (codes "ChatGPT response event was too large") none

/-- The loop of `parseCodexSse` over what `readSseData` yields before its ending. -/
def consume (parse : Text → Option Json) : Nat → List Text → Ending → List Text × Outcome
  | _, [], .eventTooLarge => ([], tooLarge)
  | _, [], .normal => ([], .failed (codes "ChatGPT response ended before completion") none)
  | outputChars, data :: rest, ending =>
    match handle parse outputChars data with
    | .ends outcome => ([], outcome)
    | .goesOn delta outputChars' =>
      let (deltas, outcome) := consume parse outputChars' rest ending
      (yielded delta ++ deltas, outcome)

def parseCodexSse (parse : Text → Option Json) (chunks : List (List UInt8)) : List Text × Outcome :=
  let (events, ending) := readSseData EVENT_LIMIT_BYTES chunks
  consume parse 0 events ending

end MailExpert.SseStream
