import MailExpert.InboxRules.Loop

/-!
# What the rules did

The loop of `applyInboxRules` with every forward and action written down, whatever comes of them. What a rule's evaluation, a forward and an
action give may depend on all that happened before. `matched` are the rules that matched when it was their turn.
-/

namespace MailExpert.InboxRules

namespace Machine

variable {σ : Type} (m : Machine σ)

/-- The barrier, what is deferred and the state after a rule's turn. -/
def afterRule (lastForwardRuleIndex : Option Nat) (ruleIndex : Nat) (rule : Rule) (forwardBarrierPassed : Bool) (deferred : List Action) (s : σ) :
    Bool × List Action × σ :=
  if m.evaluate rule s = some true then
    let s := (rule.actions.filter (·.type = .forward)).foldl (fun s _ => m.forward s) s
    let passes := !forwardBarrierPassed && (some ruleIndex = lastForwardRuleIndex || rule.stop_processing)
    let s := if passes then m.flushDeferredDestinations deferred s else s
    let deferred := if passes then [] else deferred
    (forwardBarrierPassed || passes, m.runActions (forwardBarrierPassed || passes) (rule.actions.filter (·.type ≠ .forward)) false deferred s)
  else
    let passes := !forwardBarrierPassed && some ruleIndex = lastForwardRuleIndex
    (forwardBarrierPassed || passes, if passes then [] else deferred, if passes then m.flushDeferredDestinations deferred s else s)

/-- The rules that match in a run of `runRules`. -/
def matched (lastForwardRuleIndex : Option Nat) : (ruleIndex : Nat) → List Rule → (forwardBarrierPassed : Bool) → (deferred : List Action) → σ → List Rule
  | _, [], _, _, _ => []
  | ruleIndex, rule :: rules, forwardBarrierPassed, deferred, s =>
    let (forwardBarrierPassed', deferred', s') := m.afterRule lastForwardRuleIndex ruleIndex rule forwardBarrierPassed deferred s
    if m.evaluate rule s = some true then
      rule :: if rule.stop_processing then []
        else matched lastForwardRuleIndex (ruleIndex + 1) rules forwardBarrierPassed' deferred' s'
    else matched lastForwardRuleIndex (ruleIndex + 1) rules forwardBarrierPassed' deferred' s'

def matchedOf (rules : List Rule) (s : σ) : List Rule :=
  m.matched (InboxRules.lastForwardRuleIndex rules) 0 rules (InboxRules.lastForwardRuleIndex rules).isNone [] s

theorem runRules_cons {lastForwardRuleIndex : Option Nat} {ruleIndex : Nat} {rule : Rule} {rules : List Rule} {forwardBarrierPassed : Bool}
    {deferred : List Action} {s : σ} :
    m.runRules lastForwardRuleIndex ruleIndex (rule :: rules) forwardBarrierPassed deferred s =
      let (forwardBarrierPassed', deferred', s') := m.afterRule lastForwardRuleIndex ruleIndex rule forwardBarrierPassed deferred s
      if m.evaluate rule s = some true ∧ rule.stop_processing then m.flushDeferredDestinations deferred' s'
      else m.runRules lastForwardRuleIndex (ruleIndex + 1) rules forwardBarrierPassed' deferred' s' := by
  rw [runRules, afterRule]
  split
  case isTrue hmatches => simp [hmatches]
  case isFalse hmatches => simp [hmatches]

end Machine

namespace Journal

inductive Event
  | forward (ok : Bool)
  | action (action : Action) (acted : Bool)
deriving DecidableEq

def Event.destination : Event → Option Action
  | forward _ => none
  | action a _ => if a.isDest then some a else none

def Event.isForward : Event → Bool
  | forward _ => true
  | action .. => false

/-- A forward that threw. -/
def Event.failed : Event → Bool
  | forward ok => !ok
  | action .. => false

def Event.tookEffect : Event → Bool
  | forward _ => false
  | action a acted => a.isDest && acted

/-- The events of a batch, each with the letter it is about. -/
abbrev Log := List (Nat × Event)

/-- What comes of an evaluation, a forward and an action on a letter. An action that throws did not act. -/
structure Answers where
  evaluate (msg : Nat) (rule : Rule) (log : Log) : Option Bool
  forward (msg : Nat) (log : Log) : Bool
  action (msg : Nat) (action : Action) (log : Log) : Bool

/-- The events of a letter. -/
def own (msg : Nat) (log : Log) : List Event := (log.filter (·.1 = msg)).map (·.2)

variable (answers : Answers)

/-- The rules on a letter. -/
def machine (msg : Nat) : Machine Log where
  evaluate := answers.evaluate msg
  forward log := log ++ [(msg, .forward (answers.forward msg log))]
  held log := (own msg log).any fun event => event.tookEffect || event.failed
  execute action log := log ++ [(msg, .action action (answers.action msg action log))]

def applyInboxRules (rules : List Rule) (messages : List Nat) : Log :=
  messages.foldl (fun log msg => (machine answers msg).runAll rules log) []

/-- The rules that match a letter whose turn comes after the letters `before`. -/
def matched (rules : List Rule) (before : List Nat) (msg : Nat) : List Rule :=
  (machine answers msg).matchedOf rules (applyInboxRules answers rules before)

def destinationOf (actions : List Action) : Option Action := actions.find? (·.isDest)

end Journal

end MailExpert.InboxRules
