import MailExpert.InboxRules.Loop

/-!
# What the rules ask for

Which actions run on a letter, and in which order, follows from the rules and the letter alone: not
from the mail server, nor from what the actions before it did to the letter's place. `actionsOn`
says so, and the loop of the source is shown to run these actions.
-/

namespace MailExpert.InboxRules

namespace Machine

variable {σ τ : Type} {m : Machine σ} {m' : Machine τ} {R : σ → τ → Prop}

/-- `m` and `m'` do the same in states that `R` relates. -/
structure Simulates (m : Machine σ) (m' : Machine τ) (R : σ → τ → Prop) : Prop where
  evaluate : ∀ {s t}, R s t → ∀ rule, m.evaluate rule s = m'.evaluate rule t
  held : ∀ {s t}, R s t → m.held s = m'.held t
  forward : ∀ {s t}, R s t → R (m.forward s) (m'.forward t)
  execute : ∀ {s t}, R s t → ∀ action : Action, (action.isDest = true → m.held s = false) →
    R (m.execute action s) (m'.execute action t)

variable (h : Simulates m m' R)
include h

theorem Simulates.flushDeferredDestinations (deferred : List Action) {s : σ} {t : τ} (hR : R s t) :
    R (m.flushDeferredDestinations deferred s) (m'.flushDeferredDestinations deferred t) := by
  induction deferred generalizing s t with
  | nil => exact hR
  | cons action deferred ih =>
    apply ih
    dsimp only
    rw [h.held hR]
    split
    · exact hR
    · next hheld =>
      apply h.execute hR
      intro _
      rw [h.held hR]
      exact Bool.eq_false_of_not_eq_true hheld

theorem Simulates.runActions (passed : Bool) (actions : List Action) (destSeen : Bool)
    (deferred : List Action) {s : σ} {t : τ} (hR : R s t) :
    (m.runActions passed actions destSeen deferred s).1 =
        (m'.runActions passed actions destSeen deferred t).1 ∧
      R (m.runActions passed actions destSeen deferred s).2
        (m'.runActions passed actions destSeen deferred t).2 := by
  induction actions generalizing destSeen deferred s t with
  | nil => exact ⟨rfl, hR⟩
  | cons action actions ih =>
    rw [Machine.runActions, Machine.runActions, h.held hR]
    split
    · exact ih _ _ hR
    · next hrun =>
      dsimp only
      split
      · exact ih _ _ hR
      · apply ih
        apply h.execute hR
        intro hdest
        rw [h.held hR]
        cases hheld : m'.held t with
        | false => rfl
        | true => exact absurd ⟨hdest, .inr hheld⟩ hrun

theorem Simulates.runRules (last : Option Nat) (ruleIndex : Nat) (rules : List Rule) (passed : Bool)
    (deferred : List Action) {s : σ} {t : τ} (hR : R s t) :
    R (m.runRules last ruleIndex rules passed deferred s)
      (m'.runRules last ruleIndex rules passed deferred t) := by
  induction rules generalizing ruleIndex passed deferred s t with
  | nil => exact h.flushDeferredDestinations deferred hR
  | cons rule rules ih =>
    have hforwards (actions : List Action) : R (actions.foldl (fun s _ => m.forward s) s)
        (actions.foldl (fun t _ => m'.forward t) t) := by
      induction actions generalizing s t with
      | nil => exact hR
      | cons _ actions ih => exact ih (h.forward hR)
    have hflush (passes : Bool) {s : σ} {t : τ} (hR : R s t) :
        R (if passes then m.flushDeferredDestinations deferred s else s)
          (if passes then m'.flushDeferredDestinations deferred t else t) := by
      split
      · exact h.flushDeferredDestinations deferred hR
      · exact hR
    rw [Machine.runRules, Machine.runRules, h.evaluate hR]
    split
    · dsimp only
      generalize (!passed && (some ruleIndex = last || rule.stop_processing)) = passes
      have hs := hflush passes (hforwards (rule.actions.filter (·.type = .forward)))
      obtain ⟨hdeferred, hrun⟩ := h.runActions (passed || passes)
        (rule.actions.filter (·.type ≠ .forward)) false (if passes = true then [] else deferred) hs
      rw [hdeferred]
      split
      · exact h.flushDeferredDestinations _ hrun
      · exact ih _ _ _ hrun
    · exact ih _ _ _ (hflush _ hR)

theorem Simulates.runAll (rules : List Rule) {s : σ} {t : τ} (hR : R s t) :
    R (m.runAll rules s) (m'.runAll rules t) :=
  h.runRules _ _ rules _ _ hR

end Machine

variable (world : World)

/-- The letter as conditions see it, whether a forward threw and whether a destination action took
it, and the actions run so far. -/
structure Plan where
  msg : Message
  forwards : Nat := 0
  blocked : Bool := false
  relocated : Bool := false
  ran : List Action := []

def relocates (msg : Message) (action : Action) : Bool :=
  match action.type with
  | .move => action.value ≠ ""
  | .archive => (resolvedArchive world).isSome
  | .delete => deleteStrategy world msg ≠ .no_trash
  | _ => false

namespace Plan

def forward (p : Plan) : Plan :=
  match world.forward p.msg.id p.forwards with
  | none => { p with forwards := p.forwards + 1, blocked := true }
  | some headers =>
    { p with
      forwards := p.forwards + 1
      msg := { p.msg with parsedHeaders := headers.or p.msg.parsedHeaders } }

def execute (action : Action) (p : Plan) : Plan :=
  match action.type with
  | .mark_read =>
    { p with
      msg := { p.msg with isRead := some true, is_read := some true }
      ran := p.ran ++ [action] }
  | .star => { p with ran := p.ran ++ [action] }
  | _ =>
    if relocates world p.msg action then { p with relocated := true, ran := p.ran ++ [action] } else p

def machine (unavailable : Bool) : Machine Plan where
  evaluate rule p := ruleMatches world unavailable rule p.msg
  forward := forward world
  held p := p.relocated || p.blocked
  execute := execute world

end Plan

/-- The actions that run on a letter, in order, without those that have nothing to do. -/
def actionsOn (rules : List Rule) (msg : Message) : List Action :=
  let letter := withBody world rules msg
  ((Plan.machine world (headersUnavailable world rules letter)).runAll rules
    { msg := withHeaders world rules letter }).ran

/-! ## The loop runs the plan -/

/-- The letter is where the program takes it to be. -/
def State.Placed (s : State) : Prop := s.actual.folder = s.msg.folder ∧ s.actual.uid = s.msg.uid

/-- `msg` without its place. -/
def Message.placedAt (msg : Message) (letter : Message) : Message :=
  { msg with folder := letter.folder, uid := letter.uid }

variable {world} {action : Action} {s s' : State} {acted : Bool} {letter : Message}

def State.moved (world : World) (destination : String) (s : State) : State :=
  { s with actual := { s.actual with folder := destination, uid := world.assignedUid s.msg.id } }

def newUid (world : World) (msg : Message) : Option Nat :=
  if world.reportsUid msg.id then some (world.assignedUid msg.id) else none

theorem bulkMoveMessages_of_placed {destination : String} (h : s.Placed) :
    s.bulkMoveMessages world s.msg.uid s.msg.folder destination =
      some (s.moved world destination, newUid world s.msg) :=
  if_pos h

/-- A destination action with nowhere to take the letter leaves it alone. -/
theorem applyAction_of_not_relocates (hdest : action.isDest = true)
    (h : relocates world s.msg action = false) : applyAction world action s = some (s, false) := by
  unfold relocates at h
  unfold applyAction
  split <;> simp_all [Action.isDest]

/-- A destination action takes a letter that is where the program takes it to be. -/
theorem applyAction_relocates (hplaced : s.Placed) (h : relocates world s.msg action = true) :
    ∃ s', applyAction world action s = some (s', true) ∧
      ∀ letter, s'.msg.placedAt letter = s.msg.placedAt letter := by
  unfold relocates at h
  unfold applyAction
  split at h
  · next htype =>
    have hvalue : action.value ≠ "" := by simpa using h
    simp only [htype, if_neg hvalue, bulkMoveMessages_of_placed hplaced]
    exact ⟨_, rfl, fun letter => by simp [Message.placedAt, State.moved]⟩
  · next htype =>
    obtain ⟨folder, hfolder⟩ := Option.isSome_iff_exists.mp h
    simp only [htype, hfolder, bulkMoveMessages_of_placed hplaced]
    cases archiveIsAllMail world <;>
      exact ⟨_, rfl, fun letter => by simp [Message.placedAt, State.moved]⟩
  · next htype =>
    simp only [htype]
    cases hstrategy : deleteStrategy world s.msg with
    | no_trash => simp [hstrategy] at h
    | expunge => exact ⟨_, rfl, fun letter => by simp⟩
    | move destination =>
      simp only [bulkMoveMessages_of_placed hplaced]
      exact ⟨_, rfl, fun letter => by simp [State.moved]⟩
  · cases h

theorem ruleMatches_placedAt (unavailable : Bool) (rule : Rule) (msg letter : Message) :
    ruleMatches world unavailable rule (msg.placedAt letter) =
      ruleMatches world unavailable rule msg := by
  rw [ruleMatches, Message.placedAt, evaluateRule_place]
  rfl

/-- Marking a letter as read leaves it where it is. -/
theorem applyAction_mark_read (world : World) (s : State) (h : action.type = .mark_read) :
    ∃ s', applyAction world action s = some (s', false) ∧
      s'.msg = { s.msg with isRead := some true, is_read := some true } ∧
      s'.actual = { s.actual with read := true } := by
  refine ⟨_, by rw [applyAction, h], rfl, ?_⟩
  dsimp only
  split <;> simp [State.actual_setFlag]

theorem applyAction_star (world : World) (s : State) (h : action.type = .star) : applyAction world action s =
    some ((s.update fun row => { row with is_starred := true }).setFlag s.msg.uid s.msg.folder .flagged,
      false) := by
  rw [applyAction, h]

theorem relocates_congr {msg msg' : Message} (h : msg.folder = msg'.folder) :
    relocates world msg action = relocates world msg' action := by
  unfold relocates deleteStrategy
  rw [h]

/-- The progress of the loop over a letter is that of its plan. `before` are the letters before it. -/
structure Follows (world : World) (letter : Message) (before : List Nat) (p : Progress) (q : Plan) :
    Prop where
  state : p.state = q.ran.foldl (perform world) (State.initial letter)
  msg : { p.state.msg with parsedHeaders := p.parsedHeaders }.placedAt letter = q.msg
  id : p.state.msg.id = letter.id
  forwards : p.forwards = q.forwards
  removed : p.removedIds.contains letter.id = q.relocated
  blocked : p.destinationBlockedIds.contains letter.id = q.blocked
  others : ∀ id ∈ p.removedIds ++ p.destinationBlockedIds, id = letter.id ∨ id ∈ before
  /-- Until a destination action takes it, the letter stays. -/
  home : q.relocated = false →
    p.state.Placed ∧ p.state.msg.folder = letter.folder ∧ p.state.msg.uid = letter.uid ∧
      ∀ action ∈ q.ran, action.isDest = false
  /-- Only one destination action takes it. -/
  once : q.ran.Pairwise fun a b => a.isDest = true → b.isDest = false
  effect : ∀ action ∈ q.ran, action.type = .mark_read ∨ action.type = .star ∨
    action.isDest = true ∧ relocates world letter action = true

namespace Follows

variable {before : List Nat} {p : Progress} {q : Plan}

theorem start (hbefore : letter.id ∉ p.removedIds ++ p.destinationBlockedIds)
    (hothers : ∀ id ∈ p.removedIds ++ p.destinationBlockedIds, id ∈ before)
    (hstate : p.state = State.initial letter) (hforwards : p.forwards = 0) :
    Follows world letter before p
      { msg := { letter with parsedHeaders := p.parsedHeaders } } where
  state := hstate
  msg := by rw [hstate]; rfl
  id := by rw [hstate]; rfl
  forwards := hforwards
  removed := by
    rw [List.mem_append, not_or] at hbefore
    simpa using hbefore.1
  blocked := by
    rw [List.mem_append, not_or] at hbefore
    simpa using hbefore.2
  others id hid := .inr (hothers id hid)
  home _ := by
    rw [hstate]
    exact ⟨⟨rfl, rfl⟩, rfl, rfl, nofun⟩
  once := .nil
  effect := nofun

theorem plan_id (h : Follows world letter before p q) : q.msg.id = letter.id := by
  rw [← h.msg, ← h.id]
  rfl

theorem evaluate (h : Follows world letter before p q) (unavailable : Bool) (rule : Rule) :
    (letterMachine world unavailable).evaluate rule p =
      (Plan.machine world unavailable).evaluate rule q := by
  simp only [letterMachine, Plan.machine, ← h.msg]
  exact (ruleMatches_placedAt unavailable rule _ letter).symm

theorem held (h : Follows world letter before p q) (unavailable : Bool) :
    (letterMachine world unavailable).held p = (Plan.machine world unavailable).held q := by
  simp only [letterMachine, Plan.machine, h.id, h.removed, h.blocked]

theorem forward (h : Follows world letter before p q) :
    Follows world letter before (forwardMessage world p) (q.forward world) := by
  unfold forwardMessage Plan.forward
  rw [h.id, h.plan_id, h.forwards]
  cases world.forward letter.id q.forwards with
  | none =>
    exact { h with
      forwards := rfl
      blocked := by simp
      others := fun id hid => by
        dsimp only at hid
        rw [← List.append_assoc, List.mem_append, List.mem_singleton] at hid
        rcases hid with hid | rfl
        · exact h.others id hid
        · exact .inl rfl }
  | some headers =>
    exact { h with
      forwards := rfl
      msg := by
        rw [← h.msg]
        rfl }

theorem foldl_snoc (h : Follows world letter before p q)
    (happly : applyAction world action p.state = some (s', acted)) :
    s' = (q.ran ++ [action]).foldl (perform world) (State.initial letter) := by
  rw [List.foldl_append, ← h.state, List.foldl_cons, List.foldl_nil, perform, happly]
  rfl

theorem mem_snoc {α : Type} {P : α → Prop} {l : List α} {a : α} (hl : ∀ b ∈ l, P b) (ha : P a) :
    ∀ b ∈ l ++ [a], P b := by
  intro b hb
  rcases List.mem_append.mp hb with hb | hb
  · exact hl b hb
  · exact List.mem_singleton.mp hb ▸ ha

/-- A flag action leaves the letter where it is. -/
theorem executeFlag (h : Follows world letter before p q) {isRead is_read : Option Bool}
    (hflag : action.type = .mark_read ∨ action.type = .star)
    (happly : applyAction world action p.state = some (s', false))
    (hmsg : s'.msg = { p.state.msg with isRead, is_read })
    (hactual : s'.actual.folder = p.state.actual.folder ∧ s'.actual.uid = p.state.actual.uid)
    (mutedIds : List Nat) :
    Follows world letter before { p with state := s', mutedIds }
      { q with msg := { q.msg with isRead, is_read }, ran := q.ran ++ [action] } := by
  have hdest : action.isDest = false := by
    rcases hflag with h | h <;> simp [Action.isDest, h]
  refine { h with
    state := h.foldl_snoc happly
    msg := ?_
    id := ?_
    home := fun hhome => ?_
    once := ?_
    effect := ?_ }
  · rw [← h.msg, hmsg]
    rfl
  · rw [hmsg]
    exact h.id
  · obtain ⟨hplaced, hfolder, huid, hnone⟩ := h.home hhome
    rw [State.Placed, hactual.1, hactual.2, hmsg]
    exact ⟨hplaced, hfolder, huid, mem_snoc hnone hdest⟩
  · apply List.pairwise_append.mpr
    refine ⟨h.once, List.pairwise_singleton _ _, fun a _ b hb _ => ?_⟩
    exact List.mem_singleton.mp hb ▸ hdest
  · refine mem_snoc h.effect ?_
    rcases hflag with hflag | hflag
    · exact .inl hflag
    · exact .inr (.inl hflag)

/-- A destination action takes the letter, once. -/
theorem executeDest (h : Follows world letter before p q) (hfree : q.relocated = false)
    (hdest : action.isDest = true) (hrelocates : relocates world letter action = true)
    (happly : applyAction world action p.state = some (s', true))
    (hmsg : ∀ letter, s'.msg.placedAt letter = p.state.msg.placedAt letter) :
    Follows world letter before
      { p with state := s', removedIds := p.removedIds ++ [s'.msg.id] }
      { q with relocated := true, ran := q.ran ++ [action] } := by
  have hid : s'.msg.id = letter.id := by
    have hplace := congrArg Message.id (hmsg letter)
    exact hplace.trans h.id
  obtain ⟨hplaced, hfolder, huid, hnone⟩ := h.home hfree
  refine { h with
    state := h.foldl_snoc happly
    msg := ?_
    id := hid
    removed := by simp [hid]
    others := fun id hmem => ?_
    home := nofun
    once := ?_
    effect := mem_snoc h.effect (.inr (.inr ⟨hdest, hrelocates⟩)) }
  · have hcomm (msg : Message) : { msg with parsedHeaders := p.parsedHeaders }.placedAt letter =
        { msg.placedAt letter with parsedHeaders := p.parsedHeaders } := rfl
    rw [hcomm, hmsg letter, ← hcomm, h.msg]
  · dsimp only at hmem
    rw [List.mem_append, List.mem_append, List.mem_singleton] at hmem
    rcases hmem with (hmem | rfl) | hmem
    · exact h.others id (List.mem_append_left _ hmem)
    · exact .inl hid
    · exact h.others id (List.mem_append_right _ hmem)
  · apply List.pairwise_append.mpr
    refine ⟨h.once, List.pairwise_singleton _ _, fun a ha b _ hadest => ?_⟩
    exact absurd hadest (by simp [hnone a ha])

theorem execute (h : Follows world letter before p q) (action : Action)
    (hfree : action.isDest = true → q.relocated = false) :
    Follows world letter before (executeNonForwardAction world action p) (q.execute world action) := by
  have hread : { q.msg with isRead := p.state.msg.isRead, is_read := p.state.msg.is_read } = q.msg := by
    rw [← h.msg]
    rfl
  have hfolder : q.msg.folder = letter.folder := by
    rw [← h.msg]
    rfl
  unfold Plan.execute
  split
  · next htype =>
    obtain ⟨s', happly, hmsg, hactual⟩ := applyAction_mark_read world p.state htype
    have hflags := h.executeFlag (.inl htype) happly hmsg ⟨by rw [hactual], by rw [hactual]⟩
    simp only [executeNonForwardAction, happly, Bool.false_eq_true, and_false, if_false]
    exact hflags _
  · next htype =>
    have happly := applyAction_star world p.state htype
    have hflags := h.executeFlag (.inr htype) happly rfl ⟨by simp [State.actual_setFlag], by
      simp [State.actual_setFlag]⟩
    simp only [executeNonForwardAction, happly, Bool.false_eq_true, and_false, if_false]
    rw [hread] at hflags
    exact hflags _
  · next hmark hstar =>
    rw [relocates_congr hfolder]
    split
    · next hrelocates =>
      have hdest : action.isDest = true := by
        unfold relocates at hrelocates
        split at hrelocates <;> simp_all [Action.isDest]
      obtain ⟨hplaced, hplace, -⟩ := h.home (hfree hdest)
      obtain ⟨s', happly, hmsg⟩ :=
        applyAction_relocates hplaced ((relocates_congr hplace).trans hrelocates)
      have htaken := h.executeDest (hfree hdest) hdest hrelocates happly hmsg
      simp only [executeNonForwardAction, happly, hdest, and_self, if_true, if_neg hmark]
      exact htaken
    · next hrelocates =>
      have hsame : executeNonForwardAction world action p = p := by
        have happly : applyAction world action p.state = some (p.state, false) := by
          cases hdest : action.isDest with
          | true =>
            obtain ⟨-, hplace, -⟩ := h.home (hfree hdest)
            apply applyAction_of_not_relocates hdest
            rw [relocates_congr hplace]
            exact Bool.eq_false_of_not_eq_true hrelocates
          | false =>
            unfold applyAction
            split <;> simp_all [Action.isDest]
        simp only [executeNonForwardAction, happly, Bool.false_eq_true, and_false, if_false,
          if_neg hmark]
      rw [hsame]
      exact h

theorem simulates (unavailable : Bool) :
    (letterMachine world unavailable).Simulates (Plan.machine world unavailable)
      (Follows world letter before) where
  evaluate h rule := h.evaluate unavailable rule
  held h := h.held unavailable
  forward h := h.forward
  execute h action hheld := h.execute action fun hdest => by
    have hfree := h.held unavailable ▸ hheld hdest
    simp only [Plan.machine, Bool.or_eq_false_iff] at hfree
    exact hfree.1

end Follows

variable (world) (rules : List Rule)

/-- A letter after the actions of its plan. -/
def settle (msg : Message) : State :=
  (actionsOn world rules msg).foldl (perform world) (State.initial (withBody world rules msg))

@[simp] theorem withBody_id (msg : Message) : (withBody world rules msg).id = msg.id := by
  unfold withBody
  split
  · split <;> rfl
  · rfl

/-- The loop over one letter of a batch, whose letters before it have other ids. -/
theorem applyToLetter_follows (out : Outcome) {msg : Message} {before : List Nat}
    (hbefore : msg.id ∉ before)
    (hout : ∀ id ∈ out.removedIds ++ out.destinationBlockedIds, id ∈ before) :
    ∃ p q, Follows world (withBody world rules msg) before p q ∧
      q.ran = actionsOn world rules msg ∧ applyToLetter world rules out msg =
        { letters := out.letters ++ [p.state]
          removedIds := p.removedIds
          destinationBlockedIds := p.destinationBlockedIds
          mutedIds := p.mutedIds } := by
  have hheaders (letter : Message) : withHeaders world rules letter =
      { letter with parsedHeaders := (withHeaders world rules letter).parsedHeaders } := by
    unfold withHeaders
    split <;> rfl
  refine ⟨_, _, Follows.simulates _ |>.runAll rules ?_, rfl, rfl⟩
  rw [hheaders]
  refine Follows.start (fun hmem => hbefore ?_) hout rfl rfl
  exact withBody_id world rules msg ▸ hout _ hmem

/-- **The loop runs the plan of every letter.** -/
theorem applyInboxRules_letters {messages : List Message} (h : (messages.map (·.id)).Nodup) :
    (applyInboxRules world rules messages).letters = messages.map (settle world rules) := by
  have hrun (messages : List Message) (out : Outcome) (before : List Nat)
      (hnodup : (before ++ messages.map (·.id)).Nodup)
      (hout : ∀ id ∈ out.removedIds ++ out.destinationBlockedIds, id ∈ before) :
      (messages.foldl (applyToLetter world rules) out).letters =
        out.letters ++ messages.map (settle world rules) := by
    induction messages generalizing out before with
    | nil => simp
    | cons msg messages ih =>
      rw [List.map_cons] at hnodup
      have hbefore : msg.id ∉ before := fun hmem =>
        (List.nodup_append.mp hnodup).2.2 _ hmem _ (List.mem_cons_self ..) rfl
      obtain ⟨p, q, hfollows, hran, happly⟩ := applyToLetter_follows world rules out hbefore hout
      rw [List.foldl_cons, happly, ih _ (before ++ [msg.id])]
      · simp [settle, hfollows.state, hran]
      · simpa using hnodup
      · intro id hid
        rcases hfollows.others id hid with rfl | hid
        · simp
        · exact List.mem_append_left _ hid
  exact hrun messages { letters := [] } [] (by simpa using h) nofun

variable {world rules}

/-- Only one action of a plan takes the letter. -/
theorem actionsOn_once (msg : Message) :
    (actionsOn world rules msg).Pairwise fun a b => a.isDest = true → b.isDest = false := by
  obtain ⟨p, q, hfollows, hran, -⟩ :=
    applyToLetter_follows world rules { letters := [] } (List.not_mem_nil (a := msg.id)) nofun
  exact hran ▸ hfollows.once

/-- Every action of a plan has something to do. -/
theorem actionsOn_effect (msg : Message) : ∀ action ∈ actionsOn world rules msg,
    action.type = .mark_read ∨ action.type = .star ∨
      action.isDest = true ∧ relocates world (withBody world rules msg) action = true := by
  obtain ⟨p, q, hfollows, hran, -⟩ :=
    applyToLetter_follows world rules { letters := [] } (List.not_mem_nil (a := msg.id)) nofun
  exact hran ▸ hfollows.effect

end MailExpert.InboxRules
