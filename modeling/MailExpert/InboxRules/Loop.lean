import MailExpert.InboxRules.Actions

/-!
# The rules over a batch

`applyInboxRules` of `services/inboxRules.js`. Forwards of a rule come first, and destination actions
wait until no later rule can forward: `forwardBarrierPassed`. The loop over the rules is written over
a machine that says what a rule and an action do, so that it can be followed with less state.
-/

namespace MailExpert.InboxRules

/-- What the loop over the rules needs for one letter. -/
structure Machine (σ : Type) where
  /-- Whether a rule matches; its evaluation may throw. -/
  evaluate : Rule → σ → Option Bool
  /-- A forward, which blocks destination actions if it throws. -/
  forward : σ → σ
  /-- No destination action may run: the letter was relocated or is blocked. -/
  held : σ → Bool
  /-- `executeNonForwardAction`. -/
  execute : Action → σ → σ

namespace Machine

variable {σ : Type} (m : Machine σ)

def flushDeferredDestinations (deferred : List Action) (s : σ) : σ :=
  deferred.foldl (fun s action => if m.held s then s else m.execute action s) s

/-- The actions of a matching rule, but forwards. -/
def runActions (forwardBarrierPassed : Bool) :
    List Action → (destSeen : Bool) → (deferred : List Action) → σ → List Action × σ
  | [], _, deferred, s => (deferred, s)
  | action :: actions, destSeen, deferred, s =>
    if action.isDest ∧ (destSeen ∨ m.held s) then
      runActions forwardBarrierPassed actions destSeen deferred s
    else
      let destSeen := destSeen || action.isDest
      if action.isDest ∧ ¬forwardBarrierPassed then
        runActions forwardBarrierPassed actions destSeen (deferred ++ [action]) s
      else runActions forwardBarrierPassed actions destSeen deferred (m.execute action s)

def runRules (lastForwardRuleIndex : Option Nat) :
    (ruleIndex : Nat) → List Rule → (forwardBarrierPassed : Bool) → (deferred : List Action) → σ → σ
  | _, [], _, deferred, s => m.flushDeferredDestinations deferred s
  | ruleIndex, rule :: rules, forwardBarrierPassed, deferred, s =>
    if m.evaluate rule s = some true then
      let s := (rule.actions.filter (·.type = .forward)).foldl (fun s _ => m.forward s) s
      let passes := !forwardBarrierPassed &&
        (some ruleIndex = lastForwardRuleIndex || rule.stop_processing)
      let s := if passes then m.flushDeferredDestinations deferred s else s
      let deferred := if passes then [] else deferred
      let forwardBarrierPassed := forwardBarrierPassed || passes
      let (deferred, s) := m.runActions forwardBarrierPassed
        (rule.actions.filter (·.type ≠ .forward)) false deferred s
      if rule.stop_processing then m.flushDeferredDestinations deferred s
      else runRules lastForwardRuleIndex (ruleIndex + 1) rules forwardBarrierPassed deferred s
    else
      let passes := !forwardBarrierPassed && some ruleIndex = lastForwardRuleIndex
      let s := if passes then m.flushDeferredDestinations deferred s else s
      let deferred := if passes then [] else deferred
      runRules lastForwardRuleIndex (ruleIndex + 1) rules (forwardBarrierPassed || passes) deferred s

end Machine

/-- The last rule with a forward, -1 in the source if there is none. -/
def lastForwardRuleIndex (rules : List Rule) : Option Nat :=
  ((List.range rules.length).filter fun i =>
    rules[i]?.any fun rule => rule.actions.any (·.type = .forward)).getLast?

def Machine.runAll {σ : Type} (m : Machine σ) (rules : List Rule) (s : σ) : σ :=
  m.runRules (lastForwardRuleIndex rules) 0 rules (lastForwardRuleIndex rules).isNone [] s

/-- The loop over one letter: its state, its headers (which a forward may read from the server) and
the forwards made, with the sets that are kept over the batch. -/
structure Progress where
  state : State
  parsedHeaders : Option Headers
  forwards : Nat := 0
  removedIds : List Nat
  destinationBlockedIds : List Nat
  mutedIds : List Nat

variable (world : World) (rules : List Rule)

/-- `headersUnavailable`: a rule about headers and none of the letter's. -/
def headersUnavailable (msg : Message) : Bool :=
  rules.any (·.hasField .header) && msg.parsedHeaders.isNone &&
    (world.fetchHeaders msg.folder msg.uid).isNone

/-- A rule about headers that are not available is no match. -/
def ruleMatches (unavailable : Bool) (rule : Rule) (msg : Message) : Option Bool :=
  if unavailable ∧ rule.hasField .header then some false else evaluateRule world.toTexts rule msg

/-- `forwardRuleMessage` of a matching rule. -/
def forwardMessage (p : Progress) : Progress :=
  match world.forward p.state.msg.id p.forwards with
  | none =>
    { p with
      forwards := p.forwards + 1
      destinationBlockedIds := p.destinationBlockedIds ++ [p.state.msg.id] }
  | some headers =>
    { p with forwards := p.forwards + 1, parsedHeaders := headers.or p.parsedHeaders }

def executeNonForwardAction (action : Action) (p : Progress) : Progress :=
  match applyAction world action p.state with
  | none => p
  | some (state, acted) =>
    { p with
      state
      removedIds := if action.isDest ∧ acted then p.removedIds ++ [state.msg.id] else p.removedIds
      mutedIds := if action.type = .mark_read then p.mutedIds ++ [state.msg.id] else p.mutedIds }

def letterMachine (unavailable : Bool) : Machine Progress where
  evaluate rule p := ruleMatches world unavailable rule
    { p.state.msg with parsedHeaders := p.parsedHeaders }
  forward := forwardMessage world
  held p := p.removedIds.contains p.state.msg.id || p.destinationBlockedIds.contains p.state.msg.id
  execute := executeNonForwardAction world

/-- The letter with its headers, read from the server for rules that need them. -/
def withHeaders (msg : Message) : Message :=
  if rules.any (·.hasField .header) ∧ msg.parsedHeaders.isNone then
    { msg with parsedHeaders := world.fetchHeaders msg.folder msg.uid }
  else msg

/-- The letter with its body, read from the database for rules that need it. -/
def withBody (msg : Message) : Message :=
  if rules.any (·.hasField .body) then
    match world.bodies msg.id with
    | none | some (none, none) => { msg with bodyUnknown := true }
    | some (text, html) =>
      let text := text.getD ""
      { msg with
        bodyUnknown := false
        bodyText := if text ≠ "" then text
          else match html with
          | some html => if html = "" then "" else world.htmlToText html
          | none => "" }
  else msg

structure Outcome where
  letters : List State
  removedIds : List Nat := []
  destinationBlockedIds : List Nat := []
  mutedIds : List Nat := []

def Outcome.remaining (out : Outcome) : List Message :=
  (out.letters.map (·.msg)).filter fun msg => !out.removedIds.contains msg.id

def applyToLetter (out : Outcome) (msg : Message) : Outcome :=
  let letter := withBody world rules msg
  let p := (letterMachine world (headersUnavailable world rules letter)).runAll rules {
    state := State.initial letter
    parsedHeaders := (withHeaders world rules letter).parsedHeaders
    removedIds := out.removedIds
    destinationBlockedIds := out.destinationBlockedIds
    mutedIds := out.mutedIds }
  { letters := out.letters ++ [p.state]
    removedIds := p.removedIds
    destinationBlockedIds := p.destinationBlockedIds
    mutedIds := p.mutedIds }

def applyInboxRules (messages : List Message) : Outcome :=
  messages.foldl (applyToLetter world rules) { letters := [] }

end MailExpert.InboxRules
