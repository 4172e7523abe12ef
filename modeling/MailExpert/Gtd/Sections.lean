import MailExpert.Lib.TransitionSystem

/-!
# The sections of the GTD view

`removeGtdThreadFromSections`, `snapshotGtdThreadRemoval`, `restoreGtdThreadRemoval` and `setGtdThreadReadInSections` of `utils/gtd.js`: what the list
shows at once after an action, until the server's counts come. `sections.waiting` counts a thread in watch and delegated once.
-/

universe u

namespace MailExpert.Gtd

/-- `GTD_STATES`. -/
inductive SectionKey
  | todo
  | watch
  | delegated
  | someday
  | reference
deriving DecidableEq

def SectionKey.waits : SectionKey → Bool
  | .watch | .delegated => true
  | .todo | .someday | .reference => false

/-- The head of a thread; `rest` is what no count is about. -/
structure Thread (δ : Type u) where
  messageId : Option String
  id : String
  isRead : Bool
  rest : δ
deriving DecidableEq

structure Section (δ : Type u) where
  total : Nat
  unread : Nat
  threads : List (Thread δ)
deriving DecidableEq

structure Waiting where
  total : Nat
  unread : Nat
deriving DecidableEq

structure Sections (δ : Type u) where
  section_ : SectionKey → Option (Section δ)
  waiting : Option Waiting

variable {δ : Type u}

/-- `message_id || id`. -/
def Thread.identity (t : Thread δ) : String :=
  match t.messageId with
  | some m => if m = "" then t.id else m
  | none => t.id

def Thread.is (identity : String) (t : Thread δ) : Bool := t.identity == identity

def Sections.threads (s : Sections δ) (key : SectionKey) : List (Thread δ) :=
  match s.section_ key with
  | some sec => sec.threads
  | none => []

def Sections.lists (s : Sections δ) (identity : String) (key : SectionKey) : Bool := (s.threads key).any (Thread.is identity)

def Sections.listsUnread (s : Sections δ) (identity : String) (key : SectionKey) : Bool :=
  (s.threads key).any fun t => t.is identity && !t.isRead

def Section.remove (identity : String) (sec : Section δ) : Section δ where
  total := sec.total - sec.threads.countP (Thread.is identity)
  unread := sec.unread - sec.threads.countP fun t => t.is identity && !t.isRead
  threads := sec.threads.filter fun t => !t.is identity

def removeGtdThreadFromSections (s : Sections δ) (identity : String) (states : List SectionKey) : Sections δ where
  section_ key := if key ∈ states then (s.section_ key).map (Section.remove identity) else s.section_ key
  waiting :=
    if states.any fun key => key.waits && s.lists identity key then
      s.waiting.map fun w => {
        total := w.total - 1
        unread := w.unread - if states.any fun key => key.waits && s.listsUnread identity key then 1 else 0 }
    else s.waiting

structure Row (δ : Type u) where
  index : Nat
  thread : Thread δ

structure Snapshot (δ : Type u) where
  identity : String
  removedByState : SectionKey → List (Row δ)

def rowsOf (identity : String) (threads : List (Thread δ)) : List (Row δ) :=
  (threads.zipIdx.filter fun p => p.1.is identity).map fun p => ⟨p.2, p.1⟩

/-- Without rows the source answers `null`, which restores nothing, as a snapshot without rows does. -/
def snapshotGtdThreadRemoval (s : Sections δ) (identity : String) (states : List SectionKey) : Snapshot δ where
  identity := identity
  removedByState key := if key ∈ states then rowsOf identity (s.threads key) else []

def Section.restore (identity : String) (rows : List (Row δ)) (sec : Section δ) : Section δ :=
  rows.foldl (fun sec row =>
    if sec.threads.any (Thread.is identity) then sec
    else {
      total := sec.total + 1
      unread := sec.unread + if row.thread.isRead then 0 else 1
      threads := sec.threads.insertIdx (min row.index sec.threads.length) row.thread }) sec

/-- Whether a row of the snapshot comes back to a section. -/
def Snapshot.restores (snapshot : Snapshot δ) (s : Sections δ) (key : SectionKey) : Bool :=
  (s.section_ key).isSome && !s.lists snapshot.identity key && !(snapshot.removedByState key).isEmpty

/-- Whether it comes back unread: the first row does, and no other one. -/
def Snapshot.restoresUnread (snapshot : Snapshot δ) (s : Sections δ) (key : SectionKey) : Bool :=
  snapshot.restores s key && ((snapshot.removedByState key).head?.any fun row => !row.thread.isRead)

def waitingKeys : List SectionKey := [.watch, .delegated]

def restoreGtdThreadRemoval (s : Sections δ) (snapshot : Snapshot δ) : Sections δ where
  section_ key := (s.section_ key).map (Section.restore snapshot.identity (snapshot.removedByState key))
  waiting :=
    if waitingKeys.any (snapshot.restores s) then
      s.waiting.map fun w => {
        total := w.total + 1
        unread := w.unread + if waitingKeys.any (snapshot.restoresUnread s) then 1 else 0 }
    else s.waiting

def Thread.flips (identity : String) (isRead : Bool) (t : Thread δ) : Bool := t.is identity && t.isRead != isRead

def Section.setRead (identity : String) (isRead : Bool) (sec : Section δ) : Section δ where
  total := sec.total
  unread :=
    let flipped := sec.threads.countP (Thread.flips identity isRead)
    if isRead then sec.unread - flipped else sec.unread + flipped
  threads := sec.threads.map fun t => if t.flips identity isRead then { t with isRead } else t

def setGtdThreadReadInSections (s : Sections δ) (identity : String) (isRead : Bool) : Sections δ where
  section_ key := (s.section_ key).map (Section.setRead identity isRead)
  waiting :=
    if waitingKeys.any fun key => (s.threads key).any (Thread.flips identity isRead) then
      s.waiting.map fun w => { w with unread := if isRead then w.unread - 1 else w.unread + 1 }
    else s.waiting

/-- The rows of the Waiting rollup. -/
def Sections.waits (s : Sections δ) : List (Thread δ) := s.threads .watch ++ s.threads .delegated

def Section.Counted (sec : Section δ) : Prop := sec.total = sec.threads.length ∧ sec.unread = sec.threads.countP fun t => !t.isRead

def identities (threads : List (Thread δ)) : Finset String := (threads.map Thread.identity).toFinset

def unreadIdentities (threads : List (Thread δ)) : Finset String := identities (threads.filter fun t => !t.isRead)

def Waiting.Counted (w : Waiting) (threads : List (Thread δ)) : Prop :=
  w.total = (identities threads).card ∧ w.unread = (unreadIdentities threads).card

structure Sections.Counted (s : Sections δ) : Prop where
  sections : ∀ key, ∀ sec ∈ s.section_ key, sec.Counted
  waiting : ∀ w ∈ s.waiting, w.Counted s.waits

/-- Each section lists each thread once at most. -/
def Sections.Distinct (s : Sections δ) : Prop := ∀ key, ∀ sec ∈ s.section_ key, (sec.threads.map Thread.identity).Nodup

structure State (δ : Type u) where
  sections : Sections δ
  /-- The snapshots taken at the removals. -/
  snapshots : List (Snapshot δ) := []

inductive Label
  | remove (identity : String) (states : List SectionKey)
  | restore (i : Nat)
  | setRead (identity : String) (isRead : Bool)

def step (s : State δ) : Label → Option (State δ)
  | .remove identity states => some {
      sections := removeGtdThreadFromSections s.sections identity states
      snapshots := s.snapshots ++ [snapshotGtdThreadRemoval s.sections identity states] }
  | .restore i => (s.snapshots[i]?).map fun snapshot => { s with sections := restoreGtdThreadRemoval s.sections snapshot }
  | .setRead identity isRead => some { s with sections := setGtdThreadReadInSections s.sections identity isRead }

def system (δ : Type u) : TransitionSystem (State δ) Label where
  init s := s.sections.Counted ∧ s.sections.Distinct ∧ s.snapshots = []
  step := step

/-- A thread that watch and delegated both list is removed from both or from none, does not come back to one of them while the other lists it, and is
not marked unread while one of its two rows is. -/
def together (s : State δ) : Label → Prop
  | .remove identity states => s.sections.lists identity .watch → s.sections.lists identity .delegated → (.watch ∈ states ↔ .delegated ∈ states)
  | .restore i => ∀ snapshot ∈ s.snapshots[i]?,
      ¬(snapshot.restores s.sections .watch ∧ s.sections.lists snapshot.identity .delegated) ∧
      ¬(snapshot.restores s.sections .delegated ∧ s.sections.lists snapshot.identity .watch)
  | .setRead identity isRead => isRead ∨ (s.sections.lists identity .watch → s.sections.lists identity .delegated →
      (s.sections.listsUnread identity .watch ↔ s.sections.listsUnread identity .delegated))

end MailExpert.Gtd
