import Mathlib

/-!
# Folder roles

`utils/mailUtils.js`: which folder of a mailbox is its Trash and its archive. A query without a full
order may answer any of its rows: here the order of the `folders` list decides, and it is arbitrary.
-/

namespace MailExpert.InboxRules

structure Folder where
  path : String
  name : String
  delimiter : Option String := none
  special_use : Option String := none
  no_select : Bool := false
deriving DecidableEq, Repr

/-- `account.folder_mappings`. -/
structure Mappings where
  trash : String := ""
  archive : String := ""
deriving DecidableEq, Repr

variable (folders : List Folder) (mappings : Mappings)

def mappedFolderUsable (path : String) : Option String :=
  if path = "" then none
  else if folders.any fun f => f.path = path ∧ f.no_select = false then some path
  else none

/-- `TOP_LEVEL_FOLDER_SQL`: at the top, or directly under INBOX. -/
def Folder.topLevel (f : Folder) : Bool :=
  f.path = f.name || f.delimiter.any fun d => f.path.toUpper = "INBOX" ++ d ++ f.name.toUpper

/-- `TRASH_FOLDER_SQL`. -/
def Folder.isTrash (f : Folder) : Bool :=
  f.special_use = some "\\Trash" ||
    (["trash", "deleted", "deleted items", "deleted messages"].contains f.name.toLower && f.topLevel)

/-- `ORDER BY rank LIMIT 1`. -/
def firstBy (rank : Folder → Nat) (rows : List Folder) : Option String :=
  (rows.argmin rank).map (·.path)

def resolveTrashFolder : Option String :=
  (mappedFolderUsable folders mappings.trash).or <|
    firstBy (fun f => if f.special_use = some "\\Trash" then 0 else 1) (folders.filter (·.isTrash))

def resolveAllTrashPaths : List String :=
  match mappedFolderUsable folders mappings.trash with
  | some mapped => [mapped]
  | none => (folders.filter (·.isTrash)).map (·.path)

/-- `lower(name) LIKE '%archive%'`. -/
def Folder.namedArchive (f : Folder) : Bool := "archive".toList <:+: f.name.toLower.toList

def resolveArchiveFolder : Option String :=
  (mappedFolderUsable folders mappings.archive).or <|
    firstBy (fun f =>
        if f.special_use = some "\\Archive" then 0 else if f.namedArchive then 1 else 2)
      (folders.filter fun f =>
        f.special_use = some "\\Archive" || f.namedArchive || f.special_use = some "\\All")

def isAllMailFolder (path : String) : Bool :=
  path ≠ "" && folders.any fun f => f.path = path ∧ f.special_use = some "\\All"

inductive DeleteStrategy
  | move (destination : String)
  | expunge
  | no_trash
deriving DecidableEq, Repr

def getDeleteStrategy (messageFolder : String) (trashPath : Option String)
    (allTrashPaths : List String) : DeleteStrategy :=
  match trashPath with
  | none => .no_trash
  | some trashPath =>
    if messageFolder ∈ allTrashPaths then .expunge else .move trashPath

variable {folders mappings}

/-- The Trash that letters are moved to is one they are expunged from. -/
theorem resolveTrashFolder_mem {path : String} (h : resolveTrashFolder folders mappings = some path) :
    path ∈ resolveAllTrashPaths folders mappings := by
  unfold resolveTrashFolder at h
  unfold resolveAllTrashPaths
  cases hmapped : mappedFolderUsable folders mappings.trash with
  | some mapped =>
    rw [hmapped, Option.some_or, Option.some.injEq] at h
    exact h ▸ List.mem_singleton_self _
  | none =>
    rw [hmapped, Option.none_or] at h
    obtain ⟨f, hf, rfl⟩ := Option.map_eq_some_iff.mp h
    exact List.mem_map_of_mem (List.argmin_mem hf)

/-- A letter that a delete moves leaves its folder. -/
theorem ne_of_getDeleteStrategy {folder destination : String}
    (h : getDeleteStrategy folder (resolveTrashFolder folders mappings)
      (resolveAllTrashPaths folders mappings) = .move destination) : destination ≠ folder := by
  unfold getDeleteStrategy at h
  split at h
  · cases h
  · next trashPath htrash =>
    split at h
    · cases h
    · next hnot =>
      cases h
      intro hsame
      exact hnot (hsame ▸ resolveTrashFolder_mem htrash)

end MailExpert.InboxRules
