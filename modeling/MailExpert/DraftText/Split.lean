import MailExpert.Forwarding.Headers

/-!
# The text of a draft

`splitDraftSignatureText` of `utils/draftSignature.js`, `quoteMetaFor`, `quoteHeaderLines` and the text of `buildQuote` of `utils/quoteHeader.js`,
and the text part that `buildRawDraft` of `routes/draft.js` puts together.
-/

namespace MailExpert.DraftText

open Sanitizer (Text codes)
open Forwarding (trim)

inductive Lang
  | en
  | ru
deriving DecidableEq

inductive Kind
  | reply
  | forward
deriving DecidableEq

def forwarded : Lang → Text
  | .en => codes "---------- Forwarded message ----------"
  | .ru => codes "---------- Пересланное сообщение ----------"

def fromLabel : Lang → Text
  | .en => codes "From"
  | .ru => codes "От"

def dateLabel : Lang → Text
  | .en => codes "Date"
  | .ru => codes "Дата"

def subjectLabel : Lang → Text
  | .en => codes "Subject"
  | .ru => codes "Тема"

def toLabel : Lang → Text
  | .en => codes "To"
  | .ru => codes "Кому"

def ccLabel : Lang → Text
  | .en => codes "Cc"
  | .ru => codes "Копия"

def wrote (lang : Lang) (date sender : Text) : Text :=
  match lang with
  | .en => codes "On " ++ date ++ codes ", " ++ sender ++ codes " wrote:"
  | .ru => date ++ codes ", " ++ sender ++ codes " написал(а):"

def isBreak (c : Nat) : Bool := c = 13 || c = 10

/-- `text.replace(/[\r\n]+/g, ' ')`; `run` says that a break came just before. -/
def unbroken (run : Bool) : Text → Text
  | [] => []
  | c :: t => if isBreak c then (if run then unbroken true t else 32 :: unbroken true t) else c :: unbroken false t

structure Letter where
  from_name : Text
  from_email : Text
  subject : Text

/-- `date` is what `formatQuoteDate` makes of the letter's date: a line. -/
structure QuoteMeta where
  kind : Kind
  date : Lang → Text
  date_line : ∀ lang, 10 ∉ date lang
  sender : Text
  subject : Text

def quoteMetaFor (message : Letter) (kind : Kind) (date : Lang → Text) (date_line : ∀ lang, 10 ∉ date lang) : QuoteMeta where
  kind := kind
  date := date
  date_line := date_line
  sender :=
    let name := unbroken false message.from_name
    if name ≠ [] then name ++ codes " <" ++ message.from_email ++ codes ">" else message.from_email
  subject := unbroken false message.subject

def labelled (label value : Text) : Text := label ++ codes ": " ++ value

def quoteHeaderLines (m : QuoteMeta) (lang : Lang) (to_ cc : Text) : List Text :=
  match m.kind with
  | .forward => [forwarded lang, labelled (fromLabel lang) m.sender, labelled (dateLabel lang) (m.date lang), labelled (subjectLabel lang) m.subject] ++
      (if to_ = [] then [] else [labelled (toLabel lang) to_]) ++ (if cc = [] then [] else [labelled (ccLabel lang) cc])
  | .reply => [wrote lang (m.date lang) m.sender]

def joinLines (lines : List Text) : Text := [10].intercalate lines

/-- `buildQuote(meta, lang, { text, to, cc }).quotedText` -/
def quotedText (m : QuoteMeta) (lang : Lang) (text to_ cc : Text) : Text :=
  let lines := quoteHeaderLines m lang to_ cc
  match m.kind with
  | .reply =>
    if text = [] then []
    else codes "\n\n---\n" ++ lines.headD [] ++ 10 :: joinLines ((text.splitOn 10).map (codes "> " ++ ·))
  | .forward => codes "\n\n" ++ joinLines lines ++ codes "\n\n" ++ text

/-- `TEXT_DELIMITER` -/
def delimiter : Text := codes "\n\n-- \n"

/-- `textBody` of `buildRawDraft`. -/
def textBody (bodyText : Text) (sigText : Option Text) (quotedBody : Text) : Text :=
  match sigText with
  | some sigText => bodyText ++ delimiter ++ sigText ++ quotedBody
  | none => bodyText ++ quotedBody

/-- The line behind `---`: `On [^\n]* wrote:` or `[^\n]* написал\(а\):`. -/
def isWroteLine (line : Text) : Bool :=
  ((codes "On ").isPrefixOf line && (codes " wrote:").isSuffixOf (line.drop 3)) || (codes " написал(а):").isSuffixOf line

/-- `TEXT_QUOTE_HEADER_RE` matches at the start. -/
def quoteAt (l : Text) : Bool :=
  (match (codes "\n\n---\n").isPrefixOf? l with
    | some rest => isWroteLine (rest.takeWhile (· ≠ 10)) && decide (10 ∈ rest)
    | none => false) ||
  (codes "\n\n" ++ forwarded .en ++ [10]).isPrefixOf l || (codes "\n\n" ++ forwarded .ru ++ [10]).isPrefixOf l

/-- The text before the first match, and from there on. -/
def splitQuote : Text → Text × Text
  | [] => ([], [])
  | c :: t => if quoteAt (c :: t) then ([], c :: t) else (c :: (splitQuote t).1, (splitQuote t).2)

/-- What stands before and behind the last delimiter. -/
def splitLast (d : Text) : Text → Option (Text × Text)
  | [] => none
  | c :: t =>
    match splitLast d t with
    | some (before, after) => some (c :: before, after)
    | none => (d.isPrefixOf? (c :: t)).map fun after => ([], after)

structure DraftParts where
  body : Text
  signature : Option Text
  quote : Text
deriving DecidableEq

def splitDraftSignatureText (text : Text) : DraftParts :=
  let (head, quote) := splitQuote text
  match splitLast delimiter head with
  | none => ⟨head, none, quote⟩
  | some (body, signature) => ⟨body, some signature, quote⟩

end MailExpert.DraftText
