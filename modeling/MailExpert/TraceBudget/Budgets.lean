import MailExpert.Lib.Agents
import MailExpert.Lib.TokenBucket
import MailExpert.Lib.TransitionSystem

/-!
# The budgets of the message trace

The bucket of `services/tenant/messageTrace.js`, that a job reserves from before its first request, and the one of
`services/mailNode/outageTrace.js`, that a pass spends from after its last one. Times are in milliseconds.

The counts of requests and what a job found are history.
-/

namespace MailExpert.TraceBudget

def MINUTE_MS : ℚ := 60 * 1000
def BUCKET_REFILL_MS : ℚ := 5 * MINUTE_MS

namespace MessageTrace

def BUCKET_SIZE : ℚ := 20
def MAX_REQUESTS_PER_RUN : Nat := 10

def refill (bucket : TokenBucket ℚ) (now : ℚ) : TokenBucket ℚ := bucket.refill BUCKET_SIZE BUCKET_REFILL_MS now

def availableTraceRequests (bucket : TokenBucket ℚ) (now : ℚ) : Nat := ⌊(refill bucket now).tokens⌋.toNat

def reserveTraceRequests (max : Nat) (bucket : TokenBucket ℚ) (now : ℚ) : TokenBucket ℚ × Nat :=
  let taken := min max (availableTraceRequests bucket now)
  ((refill bucket now).take taken, taken)

def refundTraceRequests (count : Nat) (bucket : TokenBucket ℚ) (now : ℚ) : TokenBucket ℚ :=
  if 0 < count then (refill bucket now).put BUCKET_SIZE count else bucket

def untilOne (bucket : TokenBucket ℚ) (now : ℚ) : ℚ :=
  if 1 ≤ (refill bucket now).tokens then 0 else ⌈(1 - (refill bucket now).tokens) * BUCKET_REFILL_MS / BUCKET_SIZE⌉

end MessageTrace

namespace OutageTrace

def BUCKET_SIZE : ℚ := 80
def MAX_REQUESTS_PER_PASS : Nat := 40

def refill (bucket : TokenBucket ℚ) (now : ℚ) : TokenBucket ℚ := bucket.refill BUCKET_SIZE BUCKET_REFILL_MS now

def availableRequests (bucket : TokenBucket ℚ) (now : ℚ) : Nat := ⌊(refill bucket now).tokens⌋.toNat

def spendRequests (count : Nat) (bucket : TokenBucket ℚ) (now : ℚ) : TokenBucket ℚ :=
  { refill bucket now with tokens := max 0 ((refill bucket now).tokens - count) }

end OutageTrace

/-- A trace job. One without requests waits for `delay`. -/
structure Job where
  found : ℚ
  allowed : Nat
  used : Nat := 0
  delay : Option ℚ := none
  ended : Bool := false

/-- A pass over the outage windows. -/
structure Pass where
  allowed : Nat
  used : Nat := 0

structure State where
  now : ℚ
  trace : TokenBucket ℚ
  outage : TokenBucket ℚ
  jobs : List Job := []
  pass : Option Pass := none
  traceSent : Nat := 0
  outageSent : Nat := 0
  outageLost : Nat := 0

open MessageTrace (reserveTraceRequests refundTraceRequests untilOne)
open OutageTrace (availableRequests spendRequests)

def handleTraceJob (bucket : TokenBucket ℚ) (now : ℚ) : TokenBucket ℚ × Job :=
  let found := (MessageTrace.refill bucket now).tokens
  let (bucket, allowed) := reserveTraceRequests MessageTrace.MAX_REQUESTS_PER_RUN bucket now
  if allowed < 1 then
    let wait := untilOne bucket now
    (bucket, { found, allowed, delay := some (if wait = 0 then MINUTE_MS else wait), ended := true })
  else (bucket, { found, allowed })

inductive Label
  | clock (now : ℚ)
  /-- `handleTraceJob` up to its first request -/
  | startJob
  | request (i : Nat)
  /-- Throttling keeps the whole reservation spent. -/
  | endJob (i : Nat) (throttled : Bool)
  | startPass
  | passRequest
  /-- A request of a call that throws: the pass does not count it. -/
  | passLost
  | endPass

def step (s : State) : Label → Option State
  | .clock now => if s.now ≤ now then some { s with now } else none
  | .startJob =>
    let (trace, job) := handleTraceJob s.trace s.now
    some { s with trace, jobs := s.jobs ++ [job] }
  | .request i => do
    let job ← s.jobs[i]?
    if job.ended || job.allowed ≤ job.used then none
    else some { s with jobs := s.jobs.set i { job with used := job.used + 1 }, traceSent := s.traceSent + 1 }
  | .endJob i throttled => do
    let job ← s.jobs[i]?
    if job.ended then none
    else
      let used := if throttled then job.allowed else job.used
      some { s with
        trace := refundTraceRequests (job.allowed - min used job.allowed) s.trace s.now
        jobs := s.jobs.set i { job with ended := true } }
  | .startPass =>
    match s.pass with
    -- a call while a pass runs gets that pass
    | some _ => none
    | none => some { s with
        outage := OutageTrace.refill s.outage s.now
        pass := some { allowed := min OutageTrace.MAX_REQUESTS_PER_PASS (availableRequests s.outage s.now) } }
  | .passRequest => do
    let pass ← s.pass
    if pass.allowed ≤ pass.used then none
    else some { s with pass := some { pass with used := pass.used + 1 }, outageSent := s.outageSent + 1 }
  | .passLost => do
    let pass ← s.pass
    if pass.allowed ≤ pass.used then none else some { s with outageLost := s.outageLost + 1 }
  | .endPass => do
    let pass ← s.pass
    some { s with outage := spendRequests (pass.allowed - (pass.allowed - pass.used)) s.outage s.now, pass := none }

/-- Both buckets are full. -/
structure Initial (s : State) : Prop where
  trace : s.trace.tokens = MessageTrace.BUCKET_SIZE ∧ s.trace.looked ≤ s.now
  outage : s.outage.tokens = OutageTrace.BUCKET_SIZE ∧ s.outage.looked ≤ s.now
  jobs : s.jobs = []
  pass : s.pass = none

def system : TransitionSystem State Label where
  init := Initial
  step := step

def State.traceLevel (s : State) : ℚ := (MessageTrace.refill s.trace s.now).tokens

def State.outageLevel (s : State) : ℚ := (OutageTrace.refill s.outage s.now).tokens

/-- What the running jobs have reserved and not used. -/
def Job.left (job : Job) : Nat := if job.ended then 0 else job.allowed - job.used

def State.reserved (s : State) : Nat := (s.jobs.map Job.left).sum

end MailExpert.TraceBudget
