import Mathlib

/-!
# Releasing a quarantined message

`services/tenant/quarantineRelease.js`, for one message: what its row holds, the statements that write it (`record`,
`claim`, `markReleased`, `touch`), what a run does with a read of the message (`decide`, `afterRead`) and with the
answer to its release (`afterCall`). Times are in milliseconds.

A type is taken as the name its spelling gives. `record` is never given a `byPanel` or a `releasedAt`.
-/

namespace MailExpert.Quarantine

def MAX_RELEASE_ATTEMPTS : Nat := 3

def CLAIM_STALE_MS : Nat := 10 * 60 * 1000

def RECHECK_EXHAUSTED_MS : Nat := 6 * 60 * 60 * 1000

inductive RowState
  | releasing | released | skipped | failed
  deriving DecidableEq, Repr

inductive Reason
  | readFailed | notFound | attemptsExhausted | gone | typeNotAllowed | outbound | releaseDenied | noRecipients
  | foreignRecipients | workerRefused
  deriving DecidableEq, Repr

structure Address where
  name : String
  domain : String
  deriving DecidableEq, Repr

/-- `facts`. -/
structure Facts where
  messageId : Option String := none
  sender : Option String := none
  subject : Option String := none
  recipients : List Address := []
  receivedAt : Option Nat := none
  expiresAt : Option Nat := none
  type : Option String := none
  deriving DecidableEq, Repr

/-- `COALESCE` of each fact; recipients are replaced by recipients only. -/
def Facts.over (new old : Facts) : Facts where
  messageId := new.messageId <|> old.messageId
  sender := new.sender <|> old.sender
  subject := new.subject <|> old.subject
  recipients := if new.recipients.isEmpty then old.recipients else new.recipients
  receivedAt := new.receivedAt <|> old.receivedAt
  expiresAt := new.expiresAt <|> old.expiresAt
  type := new.type <|> old.type

/-- A row of `tenant_quarantine_releases`. -/
structure Row where
  facts : Facts
  state : RowState
  reason : Option Reason := none
  error : Option String := none
  attempts : Nat := 0
  byPanel : Bool := false
  releasedAt : Option Nat := none
  updatedAt : Nat
  deriving DecidableEq, Repr

/-- `record`: an upsert that asks neither what state the row is in nor who holds it. -/
def record (now : Nat) (state : RowState) (f : Facts) (reason : Option Reason) (error : Option String) (attemptsDelta : Int)
    (row : Option Row) : Row :=
  match row with
  | none => { facts := f, state := state, reason := reason, error := error, attempts := attemptsDelta.toNat, updatedAt := now }
  | some row =>
    { row with
      facts := f.over row.facts
      state := state
      reason := reason
      error := error
      attempts := (row.attempts + attemptsDelta).toNat
      updatedAt := now }

/-- `claim`: nothing when another run holds the message. -/
def claim (now : Nat) (f : Facts) (row : Option Row) : Option Row :=
  match row with
  | none => some { facts := f, state := .releasing, attempts := 1, updatedAt := now }
  | some row =>
    if (row.state = .failed ∧ row.attempts < MAX_RELEASE_ATTEMPTS) ∨
        (row.state = .releasing ∧ row.updatedAt + CLAIM_STALE_MS < now) then
      some { row with
        state := .releasing
        attempts := row.attempts + 1
        error := none
        reason := none
        facts := { row.facts with recipients := f.recipients, type := f.type <|> row.facts.type }
        updatedAt := now }
    else none

/-- `markReleased`, and whether this call moved the row. -/
def markReleased (now : Nat) (f : Facts) (byPanel : Bool) (row : Option Row) : Row × Bool :=
  match row with
  | none => ({ facts := f, state := .released, byPanel := byPanel, releasedAt := some now, updatedAt := now }, true)
  | some row =>
    if row.state = .released then (row, false)
    else
      ({ row with
          facts := f.over row.facts
          state := .released
          reason := none
          error := none
          byPanel := byPanel
          releasedAt := some now
          updatedAt := now }, true)

def touch (now : Nat) (error : Option String) (row : Option Row) : Option Row :=
  row.map fun row => { row with error := error <|> row.error, updatedAt := now }

inductive QuarantineType
  | highConfPhish | phish | spam | highConfSpam | bulk | forbidden | unknown
  deriving DecidableEq, Repr

inductive ReleaseStatus
  | released | approved | denied | preparingToRelease | requested | notReleased | error | missing | unknown
  deriving DecidableEq, Repr

structure Message where
  quarantineTypes : List QuarantineType
  type : List QuarantineType
  inbound : Bool
  releaseStatus : ReleaseStatus
  facts : Facts
  deriving DecidableEq, Repr

def Message.isReleased (m : Message) : Bool := m.releaseStatus == .released || m.releaseStatus == .approved

inductive Wait
  | typeUnknown | preparingToRelease | requested | statusUnknown | spamRuleNotApplied
  deriving DecidableEq, Repr

inductive Verdict
  | release
  | released
  | skip (reason : Reason)
  | wait (reason : Wait)
  deriving DecidableEq, Repr

/-- `RULE_GATED_TYPES`. -/
def ruleGatedTypes : List QuarantineType := [.phish, .spam, .highConfSpam, .bulk]

def Message.names (m : Message) : List QuarantineType :=
  if m.quarantineTypes.isEmpty then m.type.take 1 else m.quarantineTypes

/-- `decide`. The type's own verdict (`typeVerdict`) skips first and waits late. -/
def decideMessage (m : Message) (domains : List String) (ruleOk : Bool) : Verdict :=
  if (m.quarantineTypes ++ m.type).contains .forbidden then .skip .typeNotAllowed
  else if !m.inbound then .skip .outbound
  else if m.isReleased then .released
  else if m.releaseStatus = .denied then .skip .releaseDenied
  else if m.releaseStatus = .preparingToRelease then .wait .preparingToRelease
  else if m.releaseStatus = .requested then .wait .requested
  else if m.releaseStatus = .unknown then .wait .statusUnknown
  else if m.names.isEmpty || m.names.contains .unknown then .wait .typeUnknown
  else if !ruleOk && m.names.any ruleGatedTypes.contains then .wait .spamRuleNotApplied
  else if m.facts.recipients.isEmpty then .skip .noRecipients
  else if m.facts.recipients.any (!domains.contains ·.domain) then .skip .foreignRecipients
  else .release

theorem released_of_ite {c : Prop} [Decidable c] {v v' : Verdict} (h : (if c then v else v') = .released) (hv : v ≠ .released) : v' = .released := by
  split at h
  · exact absurd h hv
  · exact h

/-- Nothing that is released already is released again. -/
theorem decideMessage_released {m : Message} {domains : List String} {ruleOk : Bool}
    (h : decideMessage m domains ruleOk = .released) : m.isReleased = true := by
  unfold decideMessage at h
  have hinbound := released_of_ite (released_of_ite h nofun) nofun
  by_contra hnot
  rw [if_neg hnot] at hinbound
  repeat replace hinbound := released_of_ite hinbound nofun
  cases hinbound

inductive Failure
  | throttled | uncertain | notAllowed | notFound | other
  deriving DecidableEq, Repr

structure Thrown where
  failure : Failure
  text : String
  deriving DecidableEq, Repr

inductive Outcome
  | released | skipped | waiting | failed | busy | gone | checked | ruleWaiting
  deriving DecidableEq, Repr

inductive Write
  | touch (error : Option String)
  | record (state : RowState) (f : Facts) (reason : Option Reason) (error : Option String) (attemptsDelta : Int)
  | markReleased (f : Facts) (byPanel : Bool)
  deriving DecidableEq, Repr

/-- What a run does next. After a throttled call nothing follows, so what it comes to is no outcome. -/
inductive Next
  | ends (outcome : Option Outcome)
  | writes (write : Write) (outcome : Option Outcome)
  | claims (f : Facts)
  deriving DecidableEq, Repr

def storedFacts (stored : Option Row) : Facts := stored.elim {} fun row => { row.facts with receivedAt := none, expiresAt := none }

/-- A failure that costs the message an attempt, by the row as the run knows it. -/
def recordFailure (f : Facts) (reason : Reason) (error : Option String) (stored : Option Row) : Write :=
  let after := stored.elim 0 (·.attempts) + 1
  .record .failed f (some (if MAX_RELEASE_ATTEMPTS ≤ after then .attemptsExhausted else reason)) error 1

def isExhausted (stored : Option Row) : Bool :=
  stored.any fun row => row.state == .failed && row.reason == some .attemptsExhausted

/-- The panel claimed the message or tried it, by the row as the run knows it. -/
def sentByPanel (stored : Option Row) : Bool :=
  stored.any fun row => row.state == .releasing ||
    (row.state == .failed && row.reason != some .readFailed && row.reason != some .notFound)

/-- What follows from the verdict on a message that was read. -/
def afterVerdict (stored : Option Row) (f : Facts) (verdict : Verdict) : Next :=
  match verdict, isExhausted stored with
  | .released, _ => .writes (.markReleased f (sentByPanel stored)) (some .released)
  | _, true => .writes (.touch none) (some .checked)
  | .skip reason, false => .writes (.record .skipped f (some reason) none 0) (some .skipped)
  | .wait .spamRuleNotApplied, false => .ends (some .ruleWaiting)
  | .wait _, false => .ends (some .waiting)
  | .release, false =>
    if stored.any fun row => decide (MAX_RELEASE_ATTEMPTS ≤ row.attempts) then
      .writes (.record .failed f (some .attemptsExhausted) (stored.bind (·.error)) 0) (some .failed)
    else .claims f

/-- `handleMessage` from the read on. -/
def afterRead (stored : Option Row) (domains : List String) (ruleOk : Bool) : Except Thrown (Option Message) → Next
  | .error e =>
    if e.failure = .throttled then .ends none
    else if isExhausted stored then .writes (.touch (some e.text)) (some .checked)
    else .writes (recordFailure (storedFacts stored) .readFailed (some e.text) stored) (some .failed)
  | .ok none =>
    if isExhausted stored || stored.any (·.reason == some .notFound) then
      .writes (.record .skipped (storedFacts stored) (some .gone) none 0) (some .gone)
    else .writes (recordFailure (storedFacts stored) .notFound none stored) (some .failed)
  | .ok (some m) => afterVerdict stored m.facts (decideMessage m domains ruleOk)

/-- `handleMessage` from the answer to the release on; `attempts` is what the claim answered. -/
def afterCall (f : Facts) (attempts : Nat) : Except Thrown Unit → Next
  | .ok () => .writes (.markReleased f true) (some .released)
  | .error e =>
    let exhausted (reason : Option Reason) := if MAX_RELEASE_ATTEMPTS ≤ attempts then some Reason.attemptsExhausted else reason
    match e.failure with
    | .throttled => .writes (.record .failed f none (some e.text) (-1)) none
    | .uncertain => .writes (.touch (some e.text)) (some .failed)
    | .notAllowed => .writes (.record .skipped f (some .workerRefused) (some e.text) 0) (some .skipped)
    | .notFound => .writes (.record .failed f (exhausted (some .notFound)) (some e.text) 0) (some .failed)
    | .other => .writes (.record .failed f (exhausted none) (some e.text) 0) (some .failed)

/-- Whether a run takes the message up: it is new, or left behind by an earlier run. -/
def takesUp (now : Nat) (row : Option Row) : Bool :=
  row.all fun row => row.state == .releasing ||
    (row.state == .failed && row.reason != some .attemptsExhausted && decide (row.attempts < MAX_RELEASE_ATTEMPTS)) ||
    (row.state == .failed && row.reason == some .attemptsExhausted && decide (row.updatedAt + RECHECK_EXHAUSTED_MS ≤ now))

end MailExpert.Quarantine
