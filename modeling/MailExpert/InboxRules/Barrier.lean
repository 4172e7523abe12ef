import MailExpert.InboxRules.Journal
import MailExpert.InboxRules.Plan

/-!
# Forwards come before destination actions

Before the barrier a letter has no destination action, and behind it no forward (`Due`); a failed forward holds all of them. So the first
destination action that runs is the first one that was due.
-/

namespace MailExpert.InboxRules.Journal

variable {answers : Answers} {msg : Nat} {log log' : Log} {e : Event} {a : Action} {acted ok : Bool} {es : List Event} {deferred actions : List Action}
  {passed : Bool} {due : Option Action} {rule : Rule} {rules : List Rule} {last : Option Nat} {i : Nat}

@[simp] theorem own_append : own msg (log ++ [(msg, e)]) = own msg log ++ [e] := by simp [own]

theorem own_append_ne {msg' : Nat} (h : msg' ≠ msg) : own msg (log ++ [(msg', e)]) = own msg log := by simp [own, h]

def Failed (es : List Event) : Prop := ∃ event ∈ es, event.failed = true

def firstDestination (es : List Event) : Option Action := es.findSome? Event.destination

/-- Forwards come first, a failed one lets no destination action run, and one takes effect at most. -/
structure ForwardsFirst (es : List Event) : Prop where
  order : es.Pairwise fun event event' => event.destination.isSome = true → event'.isForward = false
  blocked : Failed es → firstDestination es = none
  once : es.countP (·.tookEffect) ≤ 1

theorem firstDestination_none : firstDestination es = none ↔ ∀ event ∈ es, event.destination = none := List.findSome?_eq_none_iff

theorem failed_append : Failed (es ++ [e]) ↔ Failed es ∨ e.failed = true := by
  simp [Failed, or_and_right, exists_or]

theorem firstDestination_append : firstDestination (es ++ [e]) = (firstDestination es).or e.destination := by
  unfold firstDestination
  rw [List.findSome?_append]
  cases h : e.destination <;> simp [h]

theorem tookEffect_destination (h : e.tookEffect = true) : e.destination.isSome = true := by
  cases e with
  | forward => cases h
  | action a acted =>
    simp only [Event.tookEffect, Bool.and_eq_true] at h
    simp [Event.destination, h.1]

/-- A destination action ran if one took effect. -/
theorem not_tookEffect (h : firstDestination es = none) : ∀ event ∈ es, event.tookEffect = false := fun event hevent => by
  by_contra hne
  have := tookEffect_destination (by simpa using hne)
  rw [firstDestination_none.mp h event hevent] at this
  cases this

theorem ForwardsFirst.forward (h : ForwardsFirst es) (hnone : firstDestination es = none) : ForwardsFirst (es ++ [.forward ok]) := by
  refine ⟨List.pairwise_append.mpr ⟨h.order, List.pairwise_singleton _ _, fun event hevent _ _ hdest => ?_⟩, fun _ => ?_, ?_⟩
  · rw [firstDestination_none.mp hnone event hevent] at hdest
    cases hdest
  · rw [firstDestination_append, hnone]
    rfl
  · rw [List.countP_append]
    simpa [Event.tookEffect] using h.once

/-- A destination action runs only where none took effect and no forward failed. -/
theorem ForwardsFirst.action (h : ForwardsFirst es)
    (hfree : a.isDest = true → ∀ event ∈ es, event.tookEffect = false ∧ event.failed = false) : ForwardsFirst (es ++ [.action a acted]) := by
  refine ⟨List.pairwise_append.mpr ⟨h.order, List.pairwise_singleton _ _, fun event _ event' hevent' _ => ?_⟩, fun hfailed => ?_, ?_⟩
  · rw [List.mem_singleton.mp hevent']
    rfl
  · have hes : Failed es := (failed_append.mp hfailed).resolve_right (by simp [Event.failed])
    rw [firstDestination_append, h.blocked hes, Option.none_or]
    cases hdest : a.isDest with
    | false => simp [Event.destination, hdest]
    | true =>
      obtain ⟨event, hevent, hfails⟩ := hes
      rw [(hfree hdest event hevent).2] at hfails
      cases hfails
  · rw [List.countP_append]
    cases hdest : a.isDest with
    | false => simpa [Event.tookEffect, hdest] using h.once
    | true =>
      have hzero : es.countP (·.tookEffect) = 0 := List.countP_eq_zero.mpr fun event hevent => by simp [(hfree hdest event hevent).1]
      rw [hzero, Nat.zero_add]
      exact (List.countP_le_length).trans (by simp)

/-! ## Turns -/

theorem held_iff : (machine answers msg).held log = true ↔ ∃ event ∈ own msg log, event.tookEffect = true ∨ event.failed = true := by
  simp [machine]

theorem free_of_not_held (h : (machine answers msg).held log ≠ true) :
    ∀ event ∈ own msg log, event.tookEffect = false ∧ event.failed = false := fun event hevent => by
  have := fun hor => h (held_iff.mpr ⟨event, hevent, hor⟩)
  simpa [not_or] using this

/-- Between two actions: what was done, what is deferred, and the destination action that is due where no forward failed. -/
structure Due (msg : Nat) (passed : Bool) (deferred : List Action) (log : Log) (due : Option Action) : Prop where
  kept : ForwardsFirst (own msg log)
  destinations : ∀ action ∈ deferred, action.isDest = true
  before : passed = false → firstDestination (own msg log) = none
  flushed : passed = true → deferred = []
  due : ¬ Failed (own msg log) → (firstDestination (own msg log)).or deferred.head? = due

/-- Where the letter is held though no forward failed, a destination action ran. -/
theorem firstDestination_of_held (hheld : (machine answers msg).held log = true) (hok : ¬ Failed (own msg log)) :
    (firstDestination (own msg log)).isSome = true := by
  obtain ⟨event, hevent, htook | hfailed⟩ := held_iff.mp hheld
  · by_contra hnone
    have := not_tookEffect (by simpa using hnone) event hevent
    rw [htook] at this
    cases this
  · exact absurd ⟨event, hevent, hfailed⟩ hok

/-- An action runs; destination actions only where the letter is free. -/
theorem execute_spec (h : ForwardsFirst (own msg log)) (hfree : a.isDest = true → (machine answers msg).held log ≠ true) :
    ForwardsFirst (own msg ((machine answers msg).execute a log)) ∧
    (Failed (own msg ((machine answers msg).execute a log)) ↔ Failed (own msg log)) ∧
    firstDestination (own msg ((machine answers msg).execute a log)) =
      (firstDestination (own msg log)).or (if a.isDest = true then some a else none) := by
  simp only [machine, own_append]
  exact ⟨h.action fun hdest => free_of_not_held (hfree hdest), by simp [failed_append, Event.failed], firstDestination_append⟩

theorem Due.flush (answers : Answers) (h : Due msg passed deferred log due) :
    Due msg true [] ((machine answers msg).flushDeferredDestinations deferred log) due := by
  have hrun : ∀ deferred log, ForwardsFirst (own msg log) → (∀ action ∈ deferred, action.isDest = true) →
      ForwardsFirst (own msg ((machine answers msg).flushDeferredDestinations deferred log)) ∧
      (Failed (own msg ((machine answers msg).flushDeferredDestinations deferred log)) ↔ Failed (own msg log)) ∧
      (¬ Failed (own msg log) → firstDestination (own msg ((machine answers msg).flushDeferredDestinations deferred log)) =
        (firstDestination (own msg log)).or deferred.head?) := by
    intro deferred
    induction deferred with
    | nil => exact fun log hkept _ => ⟨hkept, .rfl, fun _ => by simp [Machine.flushDeferredDestinations]⟩
    | cons action deferred ih =>
      intro log hkept hdest
      rw [Machine.flushDeferredDestinations, List.foldl_cons, ← Machine.flushDeferredDestinations]
      have haction := hdest action List.mem_cons_self
      have hrest := fun a ha => hdest a (List.mem_cons_of_mem _ ha)
      split
      case isTrue hheld =>
        obtain ⟨hkept', hfailed, hfirst⟩ := ih log hkept hrest
        refine ⟨hkept', hfailed, fun hok => ?_⟩
        obtain ⟨x, hx⟩ := Option.isSome_iff_exists.mp (firstDestination_of_held hheld hok)
        rw [hfirst hok, hx, Option.some_or, Option.some_or]
      case isFalse hheld =>
        obtain ⟨hkept1, hfailed1, hfirst1⟩ := execute_spec hkept fun _ => hheld
        obtain ⟨hkept', hfailed, hfirst⟩ := ih _ hkept1 hrest
        refine ⟨hkept', hfailed.trans hfailed1, fun hok => ?_⟩
        rw [hfirst (mt hfailed1.mp hok), hfirst1, if_pos haction]
        cases firstDestination (own msg log) <;> rfl
  obtain ⟨hkept, hfailed, hfirst⟩ := hrun deferred log h.kept h.destinations
  refine ⟨hkept, by simp, by simp, fun _ => rfl, fun hok => ?_⟩
  rw [hfirst (mt hfailed.mpr hok), List.head?_nil, Option.or_none]
  exact h.due (mt hfailed.mpr hok)

theorem Due.isSome (h : Due msg passed deferred log due) (hheld : (machine answers msg).held log = true) (hok : ¬ Failed (own msg log)) :
    due.isSome = true := by
  obtain ⟨x, hx⟩ := Option.isSome_iff_exists.mp (firstDestination_of_held hheld hok)
  rw [← h.due hok, hx]
  rfl

/-- A destination action waits for the barrier. -/
theorem Due.defer (h : Due msg false deferred log due) (hdest : a.isDest = true) : Due msg false (deferred ++ [a]) log (due.or (some a)) := by
  refine ⟨h.kept, fun action haction => ?_, h.before, fun hpassed => (by cases hpassed), fun hok => ?_⟩
  · rcases List.mem_append.mp haction with haction | haction
    · exact h.destinations action haction
    · exact List.mem_singleton.mp haction ▸ hdest
  · rw [← h.due hok, h.before rfl]
    cases deferred <;> rfl

/-- An action runs, a destination action only behind the barrier. -/
theorem Due.execute (answers : Answers) (h : Due msg passed deferred log due)
    (hfree : a.isDest = true → passed = true ∧ (machine answers msg).held log ≠ true) :
    Due msg passed deferred ((machine answers msg).execute a log) (due.or (if a.isDest = true then some a else none)) ∧
      (Failed (own msg ((machine answers msg).execute a log)) ↔ Failed (own msg log)) := by
  obtain ⟨hkept, hfailed, hfirst⟩ := execute_spec h.kept fun hdest => (hfree hdest).2
  refine ⟨⟨hkept, h.destinations, fun hpassed => ?_, h.flushed, fun hok => ?_⟩, hfailed⟩
  · rw [hfirst, h.before hpassed, Option.none_or, if_neg fun hdest => by simp [(hfree hdest).1] at hpassed]
  · rw [hfirst, ← h.due (mt hfailed.mpr hok)]
    split
    case isTrue hdest => simp [h.flushed (hfree hdest).1]
    case isFalse => simp

/-- The actions of a rule but its forwards: its first destination action is due if none was before. -/
theorem Due.runActions (answers : Answers) (destSeen : Bool) (h : Due msg passed deferred log due) :
    Due msg passed ((machine answers msg).runActions passed actions destSeen deferred log).1
      ((machine answers msg).runActions passed actions destSeen deferred log).2
      (due.or (if destSeen = true then none else destinationOf actions)) ∧
    (Failed (own msg ((machine answers msg).runActions passed actions destSeen deferred log).2) ↔ Failed (own msg log)) := by
  induction actions generalizing destSeen deferred log due with
  | nil => exact ⟨by simpa [Machine.runActions, destinationOf] using h, .rfl⟩
  | cons action actions ih =>
    rw [Machine.runActions]
    split
    case isTrue hskips =>
      obtain ⟨hdue, hfailed⟩ := ih destSeen h
      refine ⟨⟨hdue.kept, hdue.destinations, hdue.before, hdue.flushed, fun hok => ?_⟩, hfailed⟩
      rw [hdue.due hok]
      cases destSeen with
      | true => rfl
      | false =>
        obtain ⟨x, rfl⟩ := Option.isSome_iff_exists.mp (h.isSome (hskips.2.resolve_left (by simp)) (mt hfailed.mpr hok))
        rfl
    case isFalse hruns =>
      have hseen : action.isDest = true → destSeen = false ∧ (machine answers msg).held log ≠ true := fun hdest =>
        ⟨by simpa using fun hseen => hruns ⟨hdest, .inl hseen⟩, fun hheld => hruns ⟨hdest, .inr hheld⟩⟩
      split
      case isTrue hwaits =>
        obtain ⟨hdest, hpassed⟩ := hwaits
        obtain rfl : passed = false := by simpa using hpassed
        obtain rfl := (hseen hdest).1
        obtain ⟨hdue, hfailed⟩ := ih true (h.defer hdest)
        simp only [hdest, Bool.or_true]
        refine ⟨?_, hfailed⟩
        simpa [destinationOf, hdest] using hdue
      case isFalse hnow =>
        have hfree : action.isDest = true → passed = true ∧ (machine answers msg).held log ≠ true := fun hdest =>
          ⟨by simpa [hdest] using hnow, (hseen hdest).2⟩
        obtain ⟨hexecuted, hfailed⟩ := h.execute answers hfree
        obtain ⟨hdue, hfailed'⟩ := ih (destSeen || action.isDest) hexecuted
        refine ⟨?_, hfailed'.trans hfailed⟩
        cases hdest : action.isDest with
        | false => simpa [destinationOf, hdest] using hdue
        | true =>
          obtain rfl := (hseen hdest).1
          simpa [destinationOf, hdest] using hdue

/-! ## Rules -/

def Forwards (rule : Rule) : Prop := rule.actions.any (·.type = .forward) = true

/-- A rule with a forward is to come only before the barrier, and not behind the last of them. -/
def Ahead (last : Option Nat) (i : Nat) (rules : List Rule) (passed : Bool) : Prop :=
  ∀ j rule, rules[j]? = some rule → Forwards rule → passed = false ∧ ∃ k, last = some k ∧ i + j ≤ k

/-- Forwards before the barrier. -/
theorem Due.forwards (answers : Answers) (h : Due msg passed deferred log due) {forwards : List Action} (hbefore : forwards ≠ [] → passed = false) :
    Due msg passed deferred (forwards.foldl (fun log _ => (machine answers msg).forward log) log) due := by
  induction forwards generalizing log with
  | nil => exact h
  | cons _ forwards ih =>
    have hnone := h.before (hbefore (by simp))
    refine ih ?_ fun _ => hbefore (by simp)
    refine ⟨?_, h.destinations, fun _ => ?_, h.flushed, fun hok => ?_⟩
    · simpa [machine] using h.kept.forward hnone
    · simp [machine, firstDestination_append, hnone, Event.destination]
    · simp only [machine, own_append, failed_append, not_or] at hok
      rw [← h.due hok.1]
      simp [machine, firstDestination_append, Event.destination]

theorem destinationOf_filter : destinationOf (actions.filter (·.type ≠ .forward)) = destinationOf actions := by
  unfold destinationOf
  rw [List.find?_filter]
  congr 1
  funext action
  cases h : action.type <;> simp [Action.isDest, h]

/-- The barrier is passed, or not yet. -/
theorem Due.passes (answers : Answers) (h : Due msg passed deferred log due) (passes : Bool) :
    Due msg (passed || passes) (if passes = true then [] else deferred)
      (if passes = true then (machine answers msg).flushDeferredDestinations deferred log else log) due := by
  cases passes with
  | false => simpa using h
  | true => simpa using h.flush answers

theorem Due.afterRule (answers : Answers) (h : Due msg passed deferred log due) (hahead : Ahead last i (rule :: rules) passed) :
    Due msg ((machine answers msg).afterRule last i rule passed deferred log).1 ((machine answers msg).afterRule last i rule passed deferred log).2.1
      ((machine answers msg).afterRule last i rule passed deferred log).2.2
      (due.or (if (machine answers msg).evaluate rule log = some true then destinationOf rule.actions else none)) := by
  unfold Machine.afterRule
  split
  case isTrue =>
    have hforwards : rule.actions.filter (·.type = .forward) ≠ [] → passed = false := fun hne => by
      obtain ⟨action, haction⟩ := List.exists_mem_of_ne_nil _ hne
      obtain ⟨hmem, htype⟩ := List.mem_filter.mp haction
      exact (hahead 0 rule rfl (List.any_eq_true.mpr ⟨action, hmem, htype⟩)).1
    have hpassed := (h.forwards answers hforwards).passes answers
      (!passed && (some i = last || rule.stop_processing))
    rw [← destinationOf_filter]
    exact (hpassed.runActions answers false).1
  case isFalse =>
    rw [Option.or_none]
    exact h.passes answers _

theorem Ahead.next (hahead : Ahead last i (rule :: rules) passed)
    (hgoes : ¬ ((machine answers msg).evaluate rule log = some true ∧ rule.stop_processing = true)) :
    Ahead last (i + 1) rules ((machine answers msg).afterRule last i rule passed deferred log).1 := by
  intro j next hnext hforwards
  obtain ⟨hpassed, k, hk, hle⟩ := hahead (j + 1) next hnext hforwards
  have hne : some i ≠ last := fun heq => by
    rw [hk, Option.some.injEq] at heq
    omega
  refine ⟨?_, k, hk, by omega⟩
  unfold Machine.afterRule
  split
  case isTrue hmatches =>
    have hstop : rule.stop_processing = false := by simpa using fun hstop => hgoes ⟨hmatches, hstop⟩
    simp [hpassed, hne, hstop]
  case isFalse => simp [hpassed, hne]

theorem Due.runRules (answers : Answers) (h : Due msg passed deferred log due) (hahead : Ahead last i rules passed) :
    ForwardsFirst (own msg ((machine answers msg).runRules last i rules passed deferred log)) ∧
    (¬ Failed (own msg ((machine answers msg).runRules last i rules passed deferred log)) →
      firstDestination (own msg ((machine answers msg).runRules last i rules passed deferred log)) =
        due.or (((machine answers msg).matched last i rules passed deferred log).findSome? fun rule => destinationOf rule.actions)) := by
  have hends : ∀ {passed deferred log due}, Due msg passed deferred log due →
      ForwardsFirst (own msg ((machine answers msg).flushDeferredDestinations deferred log)) ∧
      (¬ Failed (own msg ((machine answers msg).flushDeferredDestinations deferred log)) →
        firstDestination (own msg ((machine answers msg).flushDeferredDestinations deferred log)) = due) := fun h =>
    ⟨(h.flush answers).kept, fun hok => by simpa using (h.flush answers).due hok⟩
  induction rules generalizing i passed deferred log due with
  | nil => simpa [Machine.runRules, Machine.matched] using hends h
  | cons rule rules ih =>
    have hafter := h.afterRule answers hahead
    rw [Machine.runRules_cons, Machine.matched]
    by_cases hstop : (machine answers msg).evaluate rule log = some true ∧ rule.stop_processing = true
    · obtain ⟨hkept, hfirst⟩ := hends hafter
      simp only [hstop, and_self, if_true] at hkept hfirst ⊢
      exact ⟨hkept, fun hok => by simpa using hfirst hok⟩
    · obtain ⟨hkept, hfirst⟩ := ih hafter (hahead.next hstop)
      simp only [hstop, if_false]
      refine ⟨hkept, fun hok => (hfirst hok).trans ?_⟩
      by_cases hmatches : (machine answers msg).evaluate rule log = some true
      · have hgoes : rule.stop_processing = false := by simpa using fun hs => hstop ⟨hmatches, hs⟩
        simp only [hmatches, if_true, hgoes, Bool.false_eq_true, if_false, List.findSome?_cons]
        cases due <;> cases destinationOf rule.actions <;> rfl
      · simp [hmatches]

theorem ahead_start : Ahead (lastForwardRuleIndex rules) 0 rules (lastForwardRuleIndex rules).isNone := by
  intro j rule hj hforwards
  have hmem : j ∈ (List.range rules.length).filter fun i => rules[i]?.any fun rule => rule.actions.any (·.type = .forward) := by
    refine List.mem_filter.mpr ⟨List.mem_range.mpr (List.getElem?_eq_some_iff.mp hj).1, ?_⟩
    rw [hj]
    exact hforwards
  have hne := List.ne_nil_of_mem hmem
  have hlast : lastForwardRuleIndex rules = _ := List.getLast?_eq_some_getLast hne
  refine ⟨by rw [hlast]; rfl, _, hlast, ?_⟩
  have hsorted := (List.pairwise_lt_range (n := rules.length)).filter fun i => rules[i]?.any fun rule => rule.actions.any (·.type = .forward)
  rw [Nat.zero_add]
  obtain ⟨before, hsplit⟩ := List.getLast?_eq_some_iff.mp (List.getLast?_eq_some_getLast hne)
  rw [hsplit] at hmem hsorted
  rcases List.mem_append.mp hmem with hmem | hmem
  · exact ((List.pairwise_append.mp hsorted).2.2 j hmem _ (List.mem_singleton_self _)).le
  · exact (List.mem_singleton.mp hmem).le

theorem own_runAll_ne {msg' : Nat} (h : msg' ≠ msg) : own msg ((machine answers msg').runAll rules log) = own msg log := by
  have hsimulates : Machine.Simulates (machine answers msg') (machine answers msg') fun s t => s = t ∧ own msg s = own msg log := by
    refine ⟨?_, ?_, ?_, ?_⟩
    · rintro s _ ⟨rfl, -⟩ rule
      rfl
    · rintro s _ ⟨rfl, -⟩
      rfl
    · rintro s _ ⟨rfl, hs⟩
      exact ⟨rfl, (own_append_ne h).trans hs⟩
    · rintro s _ ⟨rfl, hs⟩ action -
      exact ⟨rfl, (own_append_ne h).trans hs⟩
  exact (hsimulates.runAll rules ⟨rfl, rfl⟩).2

theorem own_foldl_ne {messages : List Nat} (h : msg ∉ messages) :
    own msg (messages.foldl (fun log msg => (machine answers msg).runAll rules log) log) = own msg log := by
  induction messages generalizing log with
  | nil => rfl
  | cons msg' messages ih =>
    rw [List.mem_cons, not_or] at h
    exact (ih h.2).trans (own_runAll_ne (Ne.symm h.1))

theorem Due.start (hfresh : own msg log = []) : Due msg (lastForwardRuleIndex rules).isNone [] log none := by
  refine ⟨?_, by simp, fun _ => ?_, fun _ => rfl, fun _ => ?_⟩
  · rw [hfresh]
    exact ⟨.nil, fun _ => rfl, by simp⟩
  · rw [hfresh]
    rfl
  · rw [hfresh]
    rfl

/-- Of a letter in a batch: its forwards come before its destination actions and a failed one holds them all, one of them takes effect at most,
and if no forward failed, the first that runs is the first of the first matching rule that has one, up to a matching rule that stops. -/
theorem forwards_come_first (before after : List Nat) (hnodup : (before ++ msg :: after).Nodup) :
    ForwardsFirst (own msg (applyInboxRules answers rules (before ++ msg :: after))) ∧
    (¬ Failed (own msg (applyInboxRules answers rules (before ++ msg :: after))) →
      firstDestination (own msg (applyInboxRules answers rules (before ++ msg :: after))) =
        (matched answers rules before msg).findSome? fun rule => destinationOf rule.actions) := by
  rw [List.nodup_append, List.nodup_cons] at hnodup
  obtain ⟨-, ⟨hafter, -⟩, hbefore⟩ := hnodup
  have hfresh : own msg (applyInboxRules answers rules before) = [] :=
    own_foldl_ne fun hmem => hbefore msg hmem msg List.mem_cons_self rfl
  have hown : own msg (applyInboxRules answers rules (before ++ msg :: after)) =
      own msg ((machine answers msg).runAll rules (applyInboxRules answers rules before)) := by
    unfold applyInboxRules
    rw [List.foldl_append, List.foldl_cons]
    exact own_foldl_ne hafter
  rw [hown]
  exact (Due.start hfresh).runRules answers ahead_start

private def archiving (id : Nat) (stop_processing : Bool) : Rule where
  id := id
  conditions := []
  actions := [{ type := .archive }]
  stop_processing := stop_processing

private def forwarding : Rule where
  id := 2
  conditions := []
  actions := [{ type := .forward }]

/-- Every rule matches, the forward of letter 2 throws, and actions act. -/
private def allMatch : Answers where
  evaluate _ _ _ := some true
  forward msg _ := msg ≠ 2
  action _ _ _ := true

/-- The archive of an earlier rule waits for the forward of a later one. -/
theorem forwards_come_first_archive :
    own 1 (applyInboxRules allMatch [archiving 1 false, forwarding] [1, 2]) = [.forward true, .action { type := .archive } true] ∧
    own 2 (applyInboxRules allMatch [archiving 1 false, forwarding] [1, 2]) = [.forward false] ∧
    ForwardsFirst (own 1 (applyInboxRules allMatch [archiving 1 false, forwarding] [1, 2])) ∧
    ForwardsFirst (own 2 (applyInboxRules allMatch [archiving 1 false, forwarding] [1, 2])) :=
  ⟨by decide, by decide, (forwards_come_first [] [2] (by decide)).1,
    (forwards_come_first [1] [] (by decide)).1⟩

/-- A rule without a destination action that matches and stops: the destination action of a rule behind it, which matches the letter as well,
does not run. -/
theorem not_first_of_all_matching : ∃ (answers : Answers) (rules : List Rule) (msg : Nat),
    (∀ rule ∈ rules, ∀ log, answers.evaluate msg rule log = some true) ∧ ¬ Failed (own msg (applyInboxRules answers rules [msg])) ∧
    (rules.findSome? fun rule => destinationOf rule.actions).isSome = true ∧
    firstDestination (own msg (applyInboxRules answers rules [msg])) = none := by
  refine ⟨allMatch, [{ id := 1, conditions := [], actions := [{ type := .star }], stop_processing := true }, archiving 2 false], 1,
    fun _ _ _ => rfl, ?_, by decide, by decide⟩
  rintro ⟨event, hevent, hfailed⟩
  have hown : own 1 (applyInboxRules allMatch
      [{ id := 1, conditions := [], actions := [{ type := .star }], stop_processing := true }, archiving 2 false] [1]) =
      [.action { type := .star } true] := by decide
  rw [hown, List.mem_singleton] at hevent
  subst hevent
  cases hfailed

/-! ## The rules of `Loop` -/

section Letter

variable (world : World) (unavailable : Bool) (start : Progress)

/-- A letter after the events of its journal. -/
def replay (es : List Event) : Progress :=
  es.foldl (fun p event => match event with
    | .forward _ => forwardMessage world p
    | .action action _ => executeNonForwardAction world action p) start

def answersOf : Answers where
  evaluate msg rule log := (letterMachine world unavailable).evaluate rule (replay world start (own msg log))
  forward msg log :=
    let p := replay world start (own msg log)
    (world.forward p.state.msg.id p.forwards).isSome
  action msg action log := (applyAction world action (replay world start (own msg log)).state).any (·.2)

theorem bulkMoveMessages_id {s s' : State} {uid : Nat} {fromFolder toFolder : String} {newUid : Option Nat}
    (h : s.bulkMoveMessages world uid fromFolder toFolder = some (s', newUid)) : s'.msg = s.msg := by
  unfold State.bulkMoveMessages at h
  split at h <;> cases h
  rfl

theorem applyAction_id {s s' : State} {acted : Bool} (h : applyAction world a s = some (s', acted)) : s'.msg.id = s.msg.id := by
  unfold applyAction at h
  split at h
  case h_1 =>
    cases h
    rfl
  case h_2 =>
    cases h
    rfl
  case h_3 =>
    simp only [Option.bind_eq_bind] at h
    split at h
    · cases h
      rfl
    · obtain ⟨⟨t, newUid⟩, hmove, h⟩ := Option.bind_eq_some_iff.mp h
      cases h
      simp [bulkMoveMessages_id world hmove]
  case h_4 =>
    split at h
    · cases h
      rfl
    · obtain ⟨⟨t, newUid⟩, hmove, h⟩ := Option.bind_eq_some_iff.mp h
      cases h
      cases hall : archiveIsAllMail world <;> simp [bulkMoveMessages_id world hmove]
  case h_5 =>
    split at h
    · cases h
      rfl
    · obtain ⟨⟨t, newUid⟩, hmove, h⟩ := Option.bind_eq_some_iff.mp h
      cases h
      simp [bulkMoveMessages_id world hmove]
    · cases h
      simp
  case h_6 | h_7 =>
    cases h
    rfl

theorem replay_append : replay world start (es ++ [e]) = match e with
    | .forward _ => forwardMessage world (replay world start es)
    | .action action _ => executeNonForwardAction world action (replay world start es) := by
  rw [replay, List.foldl_append]
  rfl

theorem held_append : (machine answers msg).held (log ++ [(msg, e)]) =
    ((machine answers msg).held log || (e.tookEffect || e.failed)) := by
  simp [machine]

/-- The letter after its journal, and whether it is held. -/
structure Replays (p : Progress) (log : Log) : Prop where
  replay : p = replay world start (own start.state.msg.id log)
  msg : p.state.msg.id = start.state.msg.id
  held : (letterMachine world unavailable).held p = (machine (answersOf world unavailable start) start.state.msg.id).held log

/-- The loop over a letter in the world is the journal's, with what the world gives. -/
theorem letterMachine_simulates : Machine.Simulates (letterMachine world unavailable)
    (machine (answersOf world unavailable start) start.state.msg.id) (Replays world unavailable start) where
  evaluate h rule := by
    rw [h.replay]
    rfl
  held h := h.held
  forward {p log} h := by
    have hforward : (machine (answersOf world unavailable start) start.state.msg.id).forward log =
        log ++ [(start.state.msg.id, .forward (world.forward p.state.msg.id p.forwards).isSome)] := by
      simp only [machine, answersOf, ← h.replay]
    have hheld := h.held
    rw [hforward]
    refine ⟨by rw [own_append, replay_append, ← h.replay]; rfl, ?_, ?_⟩
    · change (forwardMessage world p).state.msg.id = _
      unfold forwardMessage
      split <;> exact h.msg
    · rw [held_append, ← hheld]
      simp only [letterMachine, forwardMessage, Event.tookEffect, Event.failed, Bool.false_or]
      cases hanswer : world.forward p.state.msg.id p.forwards <;> simp
  execute {p log} h action hfree := by
    have hexecute : (machine (answersOf world unavailable start) start.state.msg.id).execute action log =
        log ++ [(start.state.msg.id, .action action ((applyAction world action p.state).any (·.2)))] := by
      simp only [machine, answersOf, ← h.replay]
    have hheld := h.held
    rw [hexecute]
    refine ⟨by rw [own_append, replay_append, ← h.replay]; rfl, ?_, ?_⟩
    · change (executeNonForwardAction world action p).state.msg.id = _
      unfold executeNonForwardAction
      split
      case h_1 => exact h.msg
      case h_2 s' acted happly => exact (applyAction_id world happly).trans h.msg
    · rw [held_append, ← hheld]
      simp only [letterMachine, executeNonForwardAction, Event.tookEffect, Event.failed, Bool.or_false]
      cases happly : applyAction world action p.state with
      | none => simp
      | some result =>
        obtain ⟨s', acted⟩ := result
        have hid := applyAction_id world happly
        cases hdest : action.isDest <;> cases acted <;> simp [hid, or_comm]

end Letter

end MailExpert.InboxRules.Journal
