import MailExpert.InboxRules.Folders
import MailExpert.MoveQueue.Tables

/-!
# What a delete request means

`routes/mail.js`: a delete moves a letter to Trash, or deletes forever a letter that the client saw in Trash
(`deleteIntent`, `wantsForever`) or that is a draft. `deleteOne` is the decision of `DELETE /messages/:id` and
`partition` that of `bulk-delete`. The folders of the mailbox are looked up in between (`Lookup`).
-/

namespace MailExpert.Expunge

open InboxRules (Folder mappedFolderUsable resolveTrashFolder resolveAllTrashPaths getDeleteStrategy)
open MoveQueue (Message isPendingUid)

/-- The body of a request. A folder that is not a string is `none`, and so is a list of `seen` that is no
array. -/
structure Body where
  ids : List Nat := []
  permanent : Bool := false
  folder : Option String := none
  folders : Table Nat (Option String) := ∅
  seen : Option (List (String × Option (List Nat))) := none

/-- The last folder that lists a letter counts. -/
def seenByFolder (seen : List (String × Option (List Nat))) : Option (Table Nat String) :=
  seen.foldlM (fun out (folder, list) => list.map fun ids => ids.foldl (fun out id => out.insert id folder) out) ∅

structure Intent where
  permanent : Bool
  seen : Nat → Option String

def deleteIntent (b : Body) (bulk : Bool) : Intent where
  permanent := b.permanent
  seen id :=
    if bulk then
      match b.folders.lookup id with
      | some folder => folder
      | none => (b.seen.bind seenByFolder).bind (·.lookup id)
    else b.folder

def wantsForever (intent : Intent) (id : Nat) (allTrashPaths : List String) : Bool :=
  intent.permanent || (intent.seen id).any (· ∈ allTrashPaths)

/-- The letters a `bulk-delete` names; `none` where it is answered 400. -/
def bulkIds (b : Body) : Option (List Nat) := do
  let seen ← match b.seen with
    | none => some ∅
    | some seen => seenByFolder seen
  let ids := (b.ids ++ seen.keys).dedup
  if ids = [] ∨ 500 < ids.length then none else some ids

/-- `DRAFTS_FOLDER_SQL`. -/
def isDraftsFolder (f : Folder) : Bool :=
  f.special_use = some "\\Drafts" || (["drafts", "draft"].contains f.name.toLower && f.topLevel)

def resolveAllDraftsPaths (folders : List Folder) (drafts : String) : List String :=
  match mappedFolderUsable folders drafts with
  | some mapped => [mapped]
  | none => (folders.filter isDraftsFolder).map (·.path)

/-- The three folder lookups of a delete: the account's folders as each of them finds them, and its mappings. -/
structure Lookup where
  trash : List Folder
  allTrash : List Folder
  allDrafts : List Folder
  mappings : InboxRules.Mappings
  draftsMapping : String

namespace Lookup

variable (lk : Lookup)

def trashPath : Option String := resolveTrashFolder lk.trash lk.mappings

def allTrashPaths : List String := resolveAllTrashPaths lk.allTrash lk.mappings

def allDraftsPaths : List String := resolveAllDraftsPaths lk.allDrafts lk.draftsMapping

end Lookup

inductive Decision
  | expunge
  | move (destination : String)
  | alreadyInTrash
  | noTrash
deriving DecidableEq

/-- `DELETE /messages/:id`. -/
def deleteOne (lk : Lookup) (intent : Intent) (id : Nat) (m : Message) : Decision :=
  if m.folder ∈ lk.allDraftsPaths then .expunge
  else
    match getDeleteStrategy m.folder lk.trashPath lk.allTrashPaths with
    | .no_trash => .noTrash
    | .expunge => if wantsForever intent id lk.allTrashPaths then .expunge else .alreadyInTrash
    | .move destination => .move destination

/-- The rows of one account in a `bulk-delete`, by what is done with them. -/
structure Partition where
  toExpunge : List (Nat × Message)
  alreadyTrashed : List (Nat × Message)
  toMove : List (Nat × Message)

def partition (lk : Lookup) (intent : Intent) (msgs : List (Nat × Message)) : Partition :=
  let isDraft := fun (e : Nat × Message) => decide (e.2.folder ∈ lk.allDraftsPaths)
  let eligible := if lk.trashPath.isSome then msgs else msgs.filter isDraft
  let inTrash := fun (e : Nat × Message) => !isDraft e && decide (e.2.folder ∈ lk.allTrashPaths)
  let forever := fun (e : Nat × Message) => wantsForever intent e.1 lk.allTrashPaths
  { toExpunge := eligible.filter fun e => isDraft e || (inTrash e && forever e)
    alreadyTrashed := eligible.filter fun e => inTrash e && !forever e
    toMove := eligible.filter fun e => !isDraft e && !inTrash e }

def expungeNow (lk : Lookup) (intent : Intent) (bulk : Bool) (msgs : List (Nat × Message)) :
    List (Nat × Message) :=
  let toExpunge :=
    if bulk then (partition lk intent msgs).toExpunge
    else msgs.filter fun e => deleteOne lk intent e.1 e.2 = .expunge
  toExpunge.filter fun e => !isPendingUid e.2.uid

/-- A request says that a letter found in `folder` is to be deleted forever, or it is a draft. -/
def Wanted (lk : Lookup) (intent : Intent) (id : Nat) (folder : String) : Prop :=
  intent.permanent = true ∨ (∃ named ∈ lk.allTrashPaths, intent.seen id = some named) ∨ folder ∈ lk.allDraftsPaths

variable {lk : Lookup} {intent : Intent} {bulk : Bool} {msgs : List (Nat × Message)} {id : Nat} {m : Message}

theorem wanted_of_wantsForever {folder : String} (h : wantsForever intent id lk.allTrashPaths = true) :
    Wanted lk intent id folder := by
  rcases Bool.or_eq_true_iff.mp h with hperm | hseen
  · exact .inl hperm
  · obtain ⟨named, hnamed, hmem⟩ := (Option.any_eq_true _ _).mp hseen
    exact .inr (.inl ⟨named, by simpa using hmem, hnamed⟩)

/-- Both routes decide the same for one letter. -/
theorem mem_toExpunge : (id, m) ∈ (partition lk intent msgs).toExpunge ↔
    (id, m) ∈ msgs ∧ deleteOne lk intent id m = .expunge := by
  unfold partition deleteOne getDeleteStrategy
  by_cases hdraft : m.folder ∈ lk.allDraftsPaths
  · cases lk.trashPath <;> simp [hdraft]
  · cases lk.trashPath with
    | none => simp [hdraft]
    | some path =>
      by_cases htrash : m.folder ∈ lk.allTrashPaths
      · simp [hdraft, htrash]
      · simp [hdraft, htrash]

theorem mem_expungeNow : (id, m) ∈ expungeNow lk intent bulk msgs ↔
    (id, m) ∈ msgs ∧ deleteOne lk intent id m = .expunge ∧ 0 ≤ m.uid := by
  have hmem : ∀ l : List (Nat × Message), (id, m) ∈ l.filter (fun e => !isPendingUid e.2.uid) ↔
      (id, m) ∈ l ∧ 0 ≤ m.uid := fun l => by simp [isPendingUid]
  rw [expungeNow, hmem]
  cases bulk with
  | true => simp only [if_true, mem_toExpunge, and_assoc]
  | false => simp [and_assoc]

/-- Only what the request wants gone is deleted forever. -/
theorem wanted_of_expungeNow (h : (id, m) ∈ expungeNow lk intent bulk msgs) :
    Wanted lk intent id m.folder := by
  obtain ⟨-, hone, -⟩ := mem_expungeNow.mp h
  unfold deleteOne at hone
  split at hone
  next hdraft => exact .inr (.inr hdraft)
  split at hone
  · cases hone
  · split at hone
    next hforever => exact wanted_of_wantsForever hforever
    next => cases hone
  · cases hone

end MailExpert.Expunge
