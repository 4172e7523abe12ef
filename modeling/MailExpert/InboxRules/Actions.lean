import Mathlib
import MailExpert.InboxRules.Conditions
import MailExpert.InboxRules.Folders

/-!
# Actions of inbox rules

`applyAction` of `services/inboxRules.js`, every call to the mail server and every statement
succeeding. Beside the letter in memory, a state holds where the letter really is, its row, and what
the actions sent: the adjustments of folder counters and the flag stores.
-/

namespace MailExpert.InboxRules

/-- Everything the rules ask of others, and the answers. -/
structure World extends Texts where
  folders : List Folder
  mappings : Mappings := {}
  /-- `body_text` and `body_html` of the row of a letter. -/
  bodies (msg : Nat) : Option (Option String × Option String)
  /-- The headers of a letter, none if the server has no header for it. -/
  fetchHeaders (folder : String) (uid : Nat) : Option Headers
  /-- The i-th forward of a letter, and the headers it read; it may throw. -/
  forward (msg i : Nat) : Option (Option Headers)
  /-- The uid the server gives a letter that is moved, and whether it tells. -/
  assignedUid (msg : Nat) : Nat
  reportsUid (msg : Nat) : Bool

/-- Where the server has a letter, whether it was expunged there, and whether anyone read it. -/
structure Actual where
  folder : String
  uid : Nat
  expunged : Bool := false
  read : Bool
deriving DecidableEq, Repr

/-- The row of a letter in `messages`. -/
structure Row where
  folder : String
  uid : Nat
  is_read : Bool
  is_starred : Bool := false
  is_deleted : Bool := false
deriving DecidableEq, Repr

structure Adjustment where
  path : String
  total : Int
  unread : Int
deriving DecidableEq, Repr

inductive Flag
  | seen | flagged | deleted
deriving DecidableEq, Repr

/-- A flag store as it was sent, and where the letter was then. -/
structure FlagStore where
  flag : Flag
  folder : String
  uid : Nat
  actual : Actual
deriving DecidableEq, Repr

/-- The store reaches the letter it is about. -/
def FlagStore.Addressed (store : FlagStore) : Prop :=
  store.folder = store.actual.folder ∧ store.uid = store.actual.uid

structure State where
  msg : Message
  actual : Actual
  row : Option Row
  adjustments : List Adjustment := []
  stores : List FlagStore := []

namespace State

/-- A letter as a batch of rules finds it. -/
def initial (msg : Message) : State where
  msg := msg
  actual := { folder := msg.folder, uid := msg.uid, read := msg.read }
  row := some { folder := msg.folder, uid := msg.uid, is_read := msg.read }

/-- `UPDATE messages SET … WHERE id = $n`. -/
def update (f : Row → Row) (s : State) : State := { s with row := s.row.map f }

def adjustFolderCounts (path : String) (total unread : Int) (s : State) : State :=
  if total = 0 ∧ unread = 0 then s
  else { s with adjustments := s.adjustments ++ [{ path, total, unread }] }

/-- `setFlag`: where the letter is not, nothing changes. -/
def setFlag (uid : Nat) (folder : String) (flag : Flag) (s : State) : State :=
  { s with
    stores := s.stores ++ [{ flag, folder, uid, actual := s.actual }]
    actual := { s.actual with expunged := s.actual.expunged ||
      (flag = .deleted && s.actual.folder = folder && s.actual.uid = uid) } }

/-- `bulkMoveMessages` of one letter, and the new uid if the server tells it. A letter that is not
there fails. -/
def bulkMoveMessages (world : World) (uid : Nat) (fromFolder toFolder : String) (s : State) :
    Option (State × Option Nat) :=
  if s.actual.folder = fromFolder ∧ s.actual.uid = uid then
    let newUid := world.assignedUid s.msg.id
    some ({ s with actual := { s.actual with folder := toFolder, uid := newUid } },
      if world.reportsUid s.msg.id then some newUid else none)
  else none

def wasUnread (s : State) : Bool := !s.msg.read

/-- What a count of letters takes for an unread one. -/
def unreadCount (s : State) : Int := if s.wasUnread then 1 else 0

section
variable (s : State) (path folder : String) (total unread : Int) (uid : Nat) (flag : Flag) (f : Row → Row)

@[simp] theorem msg_update : (s.update f).msg = s.msg := rfl
@[simp] theorem actual_update : (s.update f).actual = s.actual := rfl
@[simp] theorem adjustments_update : (s.update f).adjustments = s.adjustments := rfl
@[simp] theorem stores_update : (s.update f).stores = s.stores := rfl

@[simp] theorem msg_setFlag : (s.setFlag uid folder flag).msg = s.msg := rfl
@[simp] theorem adjustments_setFlag : (s.setFlag uid folder flag).adjustments = s.adjustments := rfl
@[simp] theorem stores_setFlag : (s.setFlag uid folder flag).stores =
    s.stores ++ [{ flag, folder, uid, actual := s.actual }] := rfl

@[simp] theorem msg_adjustFolderCounts : (s.adjustFolderCounts path total unread).msg = s.msg := by
  unfold adjustFolderCounts
  split <;> rfl

@[simp] theorem actual_adjustFolderCounts :
    (s.adjustFolderCounts path total unread).actual = s.actual := by
  unfold adjustFolderCounts
  split <;> rfl

@[simp] theorem stores_adjustFolderCounts :
    (s.adjustFolderCounts path total unread).stores = s.stores := by
  unfold adjustFolderCounts
  split <;> rfl

end

/-- A flag that is not \Deleted changes nothing about where a letter is. -/
theorem actual_setFlag {s : State} {uid : Nat} {folder : String} {flag : Flag}
    (h : flag ≠ .deleted) : (s.setFlag uid folder flag).actual = s.actual := by
  simp [setFlag, h]

end State

variable (world : World)

def resolvedTrash : Option String := resolveTrashFolder world.folders world.mappings

def resolvedArchive : Option String := resolveArchiveFolder world.folders world.mappings

def archiveIsAllMail : Bool := (resolvedArchive world).any (isAllMailFolder world.folders)

def deleteStrategy (msg : Message) : DeleteStrategy :=
  getDeleteStrategy msg.folder (resolvedTrash world)
    (resolveAllTrashPaths world.folders world.mappings)

/-- The row of a letter that was moved. Without a new uid it keeps the old one until a sync. -/
def rehome (destination : String) (newUid : Option Nat) (row : Row) : Row :=
  { row with folder := destination, uid := newUid.getD row.uid }

/-- `applyAction` of anything but a forward: `none` if it throws, else whether a destination action
took the letter somewhere. -/
def applyAction (action : Action) (s : State) : Option (State × Bool) :=
  match action.type with
  | .mark_read =>
    let s' := (s.update fun row => { row with is_read := true }).setFlag s.msg.uid s.msg.folder .seen
    let s' := if s.wasUnread then s'.adjustFolderCounts s.msg.folder 0 (-1) else s'
    some ({ s' with
      msg := { s.msg with isRead := some true, is_read := some true }
      actual := { s'.actual with read := true } }, false)
  | .star =>
    some ((s.update fun row => { row with is_starred := true }).setFlag s.msg.uid s.msg.folder
      .flagged, false)
  | .move => do
    let destFolder := action.value
    if destFolder = "" then return (s, false)
    let srcFolder := s.msg.folder
    let srcUid := s.msg.uid
    let (s, newUid) ← s.bulkMoveMessages world srcUid srcFolder destFolder
    let s := s.update (rehome destFolder newUid)
    let unread := s.unreadCount
    let s := (s.adjustFolderCounts srcFolder (-1) (-unread)).adjustFolderCounts destFolder 1 unread
    return ({ s with msg := { s.msg with folder := destFolder, uid := newUid.getD srcUid } }, true)
  | .archive =>
    match resolvedArchive world with
    | none => some (s, false)
    | some archiveFolder => do
      let srcFolder := s.msg.folder
      let srcUid := s.msg.uid
      let (s, newUid) ← s.bulkMoveMessages world srcUid srcFolder archiveFolder
      let s := if archiveIsAllMail world then { s with row := none }
        else s.update (rehome archiveFolder newUid)
      let unread := s.unreadCount
      let s := s.adjustFolderCounts srcFolder (-1) (-unread)
      let s := if archiveIsAllMail world then s
        else s.adjustFolderCounts archiveFolder 1 unread
      return ({ s with msg := { s.msg with folder := archiveFolder, uid := newUid.getD srcUid } }, true)
  | .delete =>
    match deleteStrategy world s.msg with
    | .no_trash => some (s, false)
    | .move destination => do
      let (s, newUid) ← s.bulkMoveMessages world s.msg.uid s.msg.folder destination
      let s := s.update (rehome destination newUid)
      let unread := s.unreadCount
      -- `msg.folder` and `msg.uid` stay as they are
      let s := s.adjustFolderCounts s.msg.folder (-1) (-unread)
      return (s.adjustFolderCounts destination 1 unread, true)
    | .expunge =>
      let s := (s.setFlag s.msg.uid s.msg.folder .deleted).update fun row =>
        { row with is_deleted := true }
      some (s.adjustFolderCounts s.msg.folder (-1) (-s.unreadCount), true)
  | .forward | .unknown => some (s, false)

def perform (s : State) (action : Action) : State := ((applyAction world action s).map (·.1)).getD s

end MailExpert.InboxRules
