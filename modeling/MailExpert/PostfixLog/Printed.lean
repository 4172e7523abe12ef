import MailExpert.PostfixLog.Lines

/-!
# What Postfix prints

The templates of Postfix, with texts that strangers choose, and when the parser reads of a line just what was printed there.
-/

namespace MailExpert.PostfixLog

open Encodings (isSpace)
open Sanitizer (Text codes)
open Fields

/-- What holds no white space and no comma. -/
abbrev Token := { t : Text // t.all (fun c => !isSep c) = true }

/-- A text within a line. -/
abbrev Words := { t : Text // t.all (fun c => !isBreak c) = true }

/-- An address, between angle brackets. -/
abbrev Addr := { t : Text // t.all (fun c => !isBreak c && c ≠ 60 && c ≠ 62) = true }

abbrev QueueId := { t : Text // isQueueId t = true }

inductive Template
  | cleanup (messageId : Words)
  | delivery (program : Text) (to_ : Addr) (origTo : Option Addr) (relay delay delays dsn : Token) (status : DeliveryStatus) (text : Words)
  | queued (from_ : Addr) (size nrcpt : Token)
  | expired (from_ : Addr)
  | removed
  | client (host ip method : Token) (user : Words)

def Template.program : Template → Text
  | .cleanup _ => codes "postfix/cleanup"
  | .delivery program _ _ _ _ _ _ _ _ => program
  | .client _ _ _ _ => codes "postfix/smtpd"
  | _ => codes "postfix/qmgr"

def named (name : Text) (value : Text) : Text := name ++ codes "=" ++ value

def bracketed (name : Text) (a : Addr) : Text := name ++ codes "=<" ++ a.1 ++ codes ">"

/-- `status=<word> (<text>)` -/
def statusPart (s : DeliveryStatus) (t : Text) : Text := named (codes "status") s.word ++ codes " (" ++ t ++ codes ")"

/-- What stands between the commas of a line. -/
def Template.parts : Template → List Text
  | .cleanup m => [named (codes "message-id") m.1]
  | .delivery _ a b r x y d s t => bracketed (codes "to") a :: ((b.map (bracketed (codes "orig_to"))).toList ++ [named (codes "relay") r.1,
      named (codes "delay") x.1, named (codes "delays") y.1, named (codes "dsn") d.1,
      statusPart s t.1])
  | .queued a n k => [bracketed (codes "from") a, named (codes "size") n.1, named (codes "nrcpt") k.1 ++ codes " (queue active)"]
  | .expired a => [bracketed (codes "from") a, codes "status=expired", codes "returned to sender"]
  | .removed => [codes "removed"]
  | .client h i m u => [named (codes "client") (h.1 ++ codes "[" ++ i.1 ++ codes "]"), named (codes "sasl_method") m.1,
      named (codes "sasl_username") u.1]

def joined (parts : List Text) : Text := (codes ", ").intercalate parts

structure Printed where
  time : Option Nat
  queueId : QueueId
  template : Template

def Printed.entry (e : Printed) : Entry where
  time := e.time
  program := e.template.program
  message := e.queueId.1 ++ codes ": " ++ joined e.template.parts

/-- A change to lower case. It shortens no text. -/
structure LowerCase where
  apply : Text → Text
  longer : ∀ u v, v ≠ [] → (apply u).length < (apply (u ++ v)).length

def Template.said (lc : LowerCase) (queueId : Text) : Template → Said
  | .cleanup _ => { event := .message_id, queueId := some queueId }
  | .delivery _ a b r _ _ d s t => {
      event := s.event, queueId := some queueId, to_ := some (lc.apply a.1), origTo := b.map fun b => lc.apply b.1,
      relay := some r.1, dsn := some d.1, status := some s.word, statusText := some t.1 }
  | .queued a _ _ => { event := .queued, queueId := some queueId, from_ := some (lc.apply a.1) }
  | .expired a => { event := .expired, queueId := some queueId, from_ := some (lc.apply a.1), status := some (codes "expired") }
  | .removed => { event := .removed, queueId := some queueId }
  | .client _ _ _ u => { event := .received, queueId := some queueId, saslUsername := userOf lc.apply (some u.1) }

def Printed.said (lc : LowerCase) (e : Printed) : Said := e.template.said lc e.queueId.1

def fieldIn (name t : Text) : Option Text := find isSep (fieldAt name) false t

def addressIn (name t : Text) : Option Text := find isSep (addressAt name) false t

def statusIn (t : Text) : Option (Text × Text) := find isSep statusAt false t

def firstIn (name : Text) (ts : List Text) : Option Text := ts.findSome? (fieldIn name)

/-- No text names what the template does not print, or prints otherwise. -/
def Template.Quiet (lc : LowerCase) : Template → Prop
  | .cleanup m =>
    let t := m.1.rdropWhile isSpace
    statusIn t = none ∧ (∀ name ∈ [codes "to", codes "orig_to", codes "from"], addressIn name t = none) ∧
      (∀ name ∈ [codes "relay", codes "dsn"], fieldIn name t = none) ∧ userOf lc.apply (fieldIn (codes "sasl_username") t) = none
  | .delivery _ a b r _ _ d _ t =>
    let heads := (a :: b.toList).map fun a => a.1 ++ codes ">"
    (∀ c ∈ a :: b.toList, statusIn c.1 = none) ∧ (firstIn (codes "relay") heads).getD r.1 = r.1 ∧ (firstIn (codes "dsn") heads).getD d.1 = d.1 ∧
      userOf lc.apply (firstIn (codes "sasl_username") (heads ++ [t.1 ++ codes ")"])) = none ∧
      addressIn (codes "from") (t.1 ++ codes ")") = none ∧ (b = none → addressIn (codes "orig_to") (t.1 ++ codes ")") = none)
  | .queued a _ _ =>
    statusIn a.1 = none ∧ (∀ name ∈ [codes "relay", codes "dsn"], fieldIn name (a.1 ++ codes ">") = none) ∧
      userOf lc.apply (fieldIn (codes "sasl_username") (a.1 ++ codes ">")) = none
  | .expired a =>
    (∀ m ∈ statusIn a.1, m.1 = codes "expired" ∧ statusText m.2 = none) ∧
      (∀ name ∈ [codes "relay", codes "dsn"], fieldIn name (a.1 ++ codes ">") = none) ∧
      userOf lc.apply (fieldIn (codes "sasl_username") (a.1 ++ codes ">")) = none
  | .removed => True
  | .client _ _ _ u => u.1.all (fun c => !isSep c) = true

/-- The condition: no character ends a line for a pattern, and the texts are quiet. -/
def Printed.Plain (lc : LowerCase) (e : Printed) : Prop :=
  ((joined e.template.parts).rdropWhile isSpace).all inLine = true ∧ e.template.Quiet lc

end MailExpert.PostfixLog
