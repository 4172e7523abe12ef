import MailExpert.Lib.Table

/-!
# What became of a letter

`mergeOutcome` and `wouldChange` of `services/deliveryStatus.js`. Times are the milliseconds of texts that `toISOString` wrote. What the
details of a source hold beside `tls` and `acceptance` is a parameter. `logOutcomes` writes these two always, as null where the log does
not show them; the other sources never have them.
-/

namespace MailExpert.Delivery

/-- `DELIVERY_STATES` -/
inductive DeliveryState
  | sent | deferred | bounced | expired | failed | delayed | unknown
  deriving DecidableEq

/-- `FAILED_STATES` -/
def DeliveryState.isFailed : DeliveryState → Bool
  | .bounced | .expired | .failed => true
  | _ => false

inductive Source
  | log | dsn | submission
  deriving DecidableEq

structure Tls where
  level : String
  protocol : String
  cipher : String
  bits : Nat
  matchedBy : String
  deriving DecidableEq

structure Acceptance where
  messageId : Option String
  internalId : String
  hostname : Option String
  deriving DecidableEq

/-- What a row keeps of one source. -/
structure Own (δ : Type) where
  state : DeliveryState
  at_ : Option Int
  statusCode : Option String
  diagnostic : Option String
  tls : Option Tls := none
  acceptance : Option Acceptance := none
  rest : δ
  deriving DecidableEq

structure Outcome (δ : Type) where
  source : Source
  own : Own δ
  deriving DecidableEq

/-- A row of `message_delivery_status`, of one recipient. -/
structure Row (δ : Type) where
  state : DeliveryState
  source : Source
  statusCode : Option String
  diagnostic : Option String
  eventAt : Option Int
  log : Option (Own δ)
  report : Option (Own δ)
  submission : Option (Own δ)
  deriving DecidableEq

variable {δ : Type}

/-- The field of a source, `FIELD_OF_SOURCE`. -/
def Row.kept (row : Row δ) : Source → Option (Own δ)
  | .log => row.log
  | .dsn => row.report
  | .submission => row.submission

def CLOCK_SKEW_MS : Int := 2 * 60 * 1000

/-- `time(a) >= time(b)`; no time is before all. -/
def notBefore (a b : Option Int) (skew : Int) : Bool :=
  match a, b with
  | _, none => true
  | none, some _ => false
  | some a, some b => a ≥ b - skew

def winnerOf (log report submission : Option (Own δ)) : Source :=
  match submission, log, report with
  | some _, _, _ => .submission
  | none, none, _ => .dsn
  | none, some _, none => .log
  | none, some log, some report =>
    if log.state.isFailed ≠ report.state.isFailed then (if report.state.isFailed then .dsn else .log)
    else if log.state.isFailed then .log
    else if report.at_.isNone then .dsn
    else if notBefore report.at_ log.at_ CLOCK_SKEW_MS then .dsn else .log

def rowOf (log report submission : Option (Own δ)) : Option (Row δ) :=
  let winner := winnerOf log report submission
  let won := match winner with
    | .log => log
    | .dsn => report
    | .submission => submission
  won.map fun won => {
    state := won.state, source := winner, statusCode := won.statusCode, diagnostic := won.diagnostic, eventAt := won.at_
    log, report, submission }

/-- The outcome before is the later one, so that this one is ignored. -/
def older (source : Source) (before own : Own δ) : Bool :=
  match source with
  | .log => !notBefore own.at_ before.at_ 0
  | _ => own.at_.isSome && before.at_.isSome && !notBefore own.at_ before.at_ 0

/-- The same line seen again: what it shows no longer is kept. -/
def again (before own : Own δ) : Own δ :=
  if before.at_.isSome && before.at_ = own.at_ then
    { own with tls := own.tls <|> before.tls, acceptance := own.acceptance <|> before.acceptance }
  else own

variable [DecidableEq δ]

/-- The row after an outcome, and whether it changed. -/
def mergeOutcome (existing : Option (Row δ)) (incoming : Outcome δ) : Option (Row δ) × Bool :=
  let before := existing.bind (·.kept incoming.source)
  let own := (before.map (again · incoming.own)).getD incoming.own
  if before.any fun before => older incoming.source before incoming.own || before = own then (existing, false)
  else
    let kept (source : Source) : Option (Own δ) := if source = incoming.source then some own else existing.bind (·.kept source)
    (rowOf (kept .log) (kept .dsn) (kept .submission), true)

def wouldChange (normalize : String → String) (existing : Table String (Row δ)) (source : Source) (outcomes : List (String × Own δ)) :
    Bool :=
  outcomes.any fun (recipient, own) =>
    normalize recipient ≠ "" && (mergeOutcome (existing.lookup (normalize recipient)) { source, own }).2

end MailExpert.Delivery
