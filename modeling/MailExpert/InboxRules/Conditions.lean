import Mathlib

/-!
# Conditions of inbox rules

`services/inboxRules.js`: whether a rule matches a letter. A condition comes from the database as
JSON and may hold anything, so that its evaluation may throw: `none`.
-/

namespace MailExpert.InboxRules

/-- A value read from JSON or from an object: text, something falsy, or anything else. -/
inductive Value
  | text (s : String)
  | falsy
  | other
deriving DecidableEq, Repr

/-- `value || ''`, where that is text. -/
def Value.orEmpty : Value → Option String
  | .text s => some s
  | .falsy => some ""
  | .other => none

inductive Field
  | from_ | to_ | subject | has_attachment | read_status | body | header | unknown
deriving DecidableEq, Repr

inductive Operator
  | contains | not_contains | equals | starts_with | ends_with | regex | unknown
deriving DecidableEq, Repr

structure Condition where
  field : Field
  operator : Operator := .unknown
  value : Value := .falsy
  headerName : Value := .falsy
deriving DecidableEq, Repr

structure Address where
  email : String
  name : String
deriving DecidableEq, Repr

/-- `headers[name]`. -/
abbrev Headers := String → Value

/-- A letter in memory. `isRead` comes with an arriving letter, `is_read` with a row. -/
structure Message where
  id : Nat
  folder : String
  uid : Nat
  isRead : Option Bool := none
  is_read : Option Bool := none
  fromEmail : String := ""
  fromName : String := ""
  to_ : List Address := []
  subject : String := ""
  hasAttachments : Bool := false
  parsedHeaders : Option Headers := none
  bodyUnknown : Bool := false
  bodyText : String := ""

/-- `msg.isRead ?? msg.is_read`. -/
def Message.read (msg : Message) : Bool := (msg.isRead.or msg.is_read).getD false

/-- The text functions of the platform, and user patterns: `testRegex` is `matchUserRegex` of a
pattern that `isDangerousRegex` lets through. It may time out, for one letter and not for another. -/
structure Texts where
  toLowerCase : String → String
  trim : String → String
  testRegex (msg rule : Nat) (pattern text : String) : Bool
  htmlToText : String → String

variable (texts : Texts)

def normalizeStr (val : Value) : Option String :=
  val.orEmpty.map fun s => texts.trim (texts.toLowerCase s)

section
variable (rule : Nat) (msg : Message)

/-- A blank rule value matches nothing. -/
def matchOperator (operator : Operator) (fieldVal ruleVal : Value) : Option Bool := do
  let f ← normalizeStr texts fieldVal
  let r ← normalizeStr texts ruleVal
  if r = "" then return false
  match operator with
  | .contains => return r.toList <:+: f.toList
  | .not_contains => return ¬r.toList <:+: f.toList
  | .equals => return f = r
  | .starts_with => return r.toList <+: f.toList
  | .ends_with => return r.toList <:+ f.toList
  | .regex => return texts.testRegex msg.id rule ((← ruleVal.orEmpty)) ((← fieldVal.orEmpty))
  | .unknown => return false

/-- A name and an address: `not_contains` is about both, any other operator about either. -/
def matchAddress (operator : Operator) (email name : String) (value : Value) : Option Bool := do
  let matched ← matchOperator texts rule msg operator (.text email) value
  if operator = .not_contains then
    if matched then matchOperator texts rule msg operator (.text name) value else return false
  else if matched then return true
  else matchOperator texts rule msg operator (.text name) value

/-- What a condition says about a letter, `none` where the body is not known. -/
def evaluateCondition (cond : Condition) : Option (Option Bool) :=
  match cond.field with
  | .from_ => (matchAddress texts rule msg cond.operator msg.fromEmail msg.fromName cond.value).map some
  | .to_ =>
    if msg.to_ = [] then some (some false)
    else
      let matchesOne (a : Address) := matchAddress texts rule msg cond.operator a.email a.name cond.value
      (if cond.operator = .not_contains then msg.to_.allM matchesOne else msg.to_.anyM matchesOne).map
        some
  | .subject => (matchOperator texts rule msg cond.operator (.text msg.subject) cond.value).map some
  | .has_attachment => some (some msg.hasAttachments)
  | .read_status => some (some (if cond.value = .text "read" then msg.read else !msg.read))
  | .body =>
    if msg.bodyUnknown then some none
    else (matchOperator texts rule msg cond.operator (.text msg.bodyText) cond.value).map some
  | .header => do
    let headerName ← normalizeStr texts cond.headerName
    if headerName = "" then return some false
    let headerVal := (msg.parsedHeaders.map (· headerName)).getD .falsy
    return some (← matchOperator texts rule msg cond.operator headerVal cond.value)
  | .unknown => some (some false)

end

/-- `destination` of the source: move, archive and delete. -/
inductive ActionType
  | forward | mark_read | star | move | archive | delete | unknown
deriving DecidableEq, Repr

structure Action where
  type : ActionType
  value : String := ""
deriving DecidableEq, Repr

/-- `isDest`. -/
def Action.isDest (action : Action) : Bool := action.type ∈ [.move, .archive, .delete]

structure Rule where
  id : Nat
  conditions : List Condition
  /-- `condition_logic === 'OR'`. -/
  anyOf : Bool := false
  actions : List Action
  stop_processing : Bool := false
deriving DecidableEq, Repr

def Rule.hasField (rule : Rule) (field : Field) : Bool := rule.conditions.any (·.field = field)

def evaluateRule (rule : Rule) (msg : Message) : Option Bool :=
  if rule.conditions = [] then some false
  else do
    let results ← rule.conditions.mapM (evaluateCondition texts rule.id msg)
    if rule.anyOf then return results.any (· = some true)
    return results.all (· = some true)

/-- Nothing is decided by the place of a letter. -/
theorem evaluateRule_place (rule : Rule) (msg : Message) (folder : String) (uid : Nat) :
    evaluateRule texts rule { msg with folder, uid } = evaluateRule texts rule msg := by
  have hcondition : evaluateCondition texts rule.id { msg with folder, uid } =
      evaluateCondition texts rule.id msg := by
    funext cond
    cases hfield : cond.field <;> simp only [evaluateCondition, hfield] <;> rfl
  rw [evaluateRule, evaluateRule, hcondition]

end MailExpert.InboxRules
