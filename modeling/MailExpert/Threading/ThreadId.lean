import Mathlib

/-!
# Thread keys

`services/threading/threadId.js` and `threadingForRow` of `services/threading/recompute.js`: the key
of the conversation a message belongs to, from its headers and the keys of the messages it refers to.
-/

namespace MailExpert.Threading

/-- What a JavaScript condition takes for true. -/
def truthy (s : Option String) : Option String := s.filter (· ≠ "")

/-- The scan for `<[^>]+>`: outside an id, or with the characters of one so far. -/
def scanReferences : Option (List Char) → List Char → List String
  | _, [] => []
  | none, c :: cs => scanReferences (if c = '<' then some [] else none) cs
  | some id, c :: cs =>
    if c ≠ '>' then scanReferences (some (id ++ [c])) cs
    else if id = [] then scanReferences none cs
    else String.ofList ('<' :: id ++ ['>']) :: scanReferences none cs

/-- The Message-IDs of a References header, in order. -/
def parseReferences (refHeader : Option String) : List String :=
  scanReferences none (refHeader.getD "").toList

inductive Mode
  | rfc | gmail
deriving DecidableEq, Repr

def GMAIL_KEY_PREFIX : String := "gmail:"

/-- A row of `messages` of the mailbox, without its thread key. A date is a count of microseconds. -/
structure Row where
  id : Nat
  date : Option Nat
  message_id : Option String := none
  in_reply_to : Option String := none
  thread_references : Option String := none
  provider_thread_id : Option String := none
  is_deleted : Bool := false
deriving DecidableEq, Repr

def Row.messageId (row : Row) : Option String := truthy row.message_id

/-- `ancestorCandidates`: the Message-IDs a message may thread under, never its own. -/
def ancestorCandidates (messageId inReplyTo references : Option String) : List String :=
  let candidates := (parseReferences references).filter fun id => some id ≠ messageId
  match truthy inReplyTo with
  | some inReplyTo =>
    if some inReplyTo ≠ messageId ∧ inReplyTo ∉ candidates then candidates ++ [inReplyTo]
    else candidates
  | none => candidates

def Row.candidates (row : Row) : List String :=
  ancestorCandidates row.message_id row.in_reply_to row.thread_references

inductive Reason
  | gmailThrid | newRoot | rfcRoot | rfcAncestor | rfcProvisional
  | earlier (text : String)  -- of another version of the program
deriving DecidableEq, Repr

/-- The columns `thread_id` and `threading_reason`. -/
structure ThreadKey where
  threadId : Option String
  reason : Option Reason
deriving DecidableEq, Repr

/-- `ancestorKeys`: a map of Message-IDs to thread keys, the newest entry first. -/
abbrev Keys := List (String × Option String)

def Keys.has (keys : Keys) (id : String) : Bool := (keys.lookup id).isSome

def Keys.get (keys : Keys) (id : String) : Option String := (keys.lookup id).join

def Keys.set (keys : Keys) (id : String) (threadId : Option String) : Keys := (id, threadId) :: keys

def threadingForRow (row : Row) (mode : Mode) (ancestorKeys : Keys) : ThreadKey :=
  match mode, truthy row.provider_thread_id with
  | .gmail, some thread => { threadId := some (GMAIL_KEY_PREFIX ++ thread), reason := some .gmailThrid }
  | _, _ => match row.messageId with
    | none => { threadId := none, reason := none }
    | some messageId => match row.candidates with
      | [] => { threadId := some messageId, reason := some .newRoot }
      | root :: rest =>
        if ancestorKeys.has root then
          { threadId := ancestorKeys.get root, reason := some .rfcRoot }
        else match (root :: rest).reverse.find? ancestorKeys.has with
          | some ancestor => { threadId := ancestorKeys.get ancestor, reason := some .rfcAncestor }
          | none => { threadId := some root, reason := some .rfcProvisional }

/-- The candidate a row threads under, from which of them are there. -/
def Row.under (mode : Mode) (has : String → Bool) (row : Row) : Option (String × Reason) :=
  match mode, truthy row.provider_thread_id with
  | .gmail, some _ => none
  | _, _ => if row.messageId.isNone then none else match row.candidates with
    | [] => none
    | root :: rest =>
      if has root then some (root, .rfcRoot)
      else ((root :: rest).reverse.find? has).map (·, .rfcAncestor)

def Row.own (mode : Mode) (row : Row) : ThreadKey := threadingForRow row mode []

variable {row : Row} {mode : Mode} {keys : Keys} {has has' : String → Bool} {c : String}
  {reason : Reason}

theorem find?_has_nil (ids : List String) : ids.find? (Keys.has []) = none :=
  List.find?_eq_none.mpr fun _ _ => Bool.false_ne_true

/-- Where a row threads depends only on which of its candidates are there. -/
theorem threadingForRow_eq : threadingForRow row mode keys = match row.under mode keys.has with
    | some (c, reason) => { threadId := keys.get c, reason := some reason }
    | none => row.own mode := by
  unfold Row.own threadingForRow Row.under
  split
  · rfl
  · cases row.messageId with
    | none => rfl
    | some messageId =>
      cases row.candidates with
      | nil => rfl
      | cons root rest =>
        simp only [Option.isNone_some, Bool.false_eq_true, if_false, find?_has_nil]
        cases keys.has root with
        | true => rfl
        | false =>
          cases (root :: rest).reverse.find? keys.has with
          | none => rfl
          | some ancestor => rfl

theorem Row.under_congr (h : ∀ c ∈ row.candidates, has c = has' c) :
    row.under mode has = row.under mode has' := by
  unfold Row.under
  split
  · rfl
  · split
    · rfl
    · split
      · rfl
      · next root rest hcandidates =>
        rw [hcandidates] at h
        have hfind : (root :: rest).reverse.find? has = (root :: rest).reverse.find? has' := by
          apply List.find?_congr
          exact fun c hc => h c (List.mem_reverse.mp hc)
        rw [h root (List.mem_cons_self ..), hfind]

/-- A row threads under a candidate that is there. -/
theorem Row.under_some (h : row.under mode has = some (c, reason)) :
    c ∈ row.candidates ∧ has c = true := by
  unfold Row.under at h
  split at h
  · cases h
  · split at h
    · cases h
    · split at h
      · cases h
      · next root rest hcandidates =>
        rw [hcandidates]
        split at h
        · next hroot =>
          cases h
          exact ⟨List.mem_cons_self .., hroot⟩
        · obtain ⟨ancestor, hfind, hsame⟩ := Option.map_eq_some_iff.mp h
          cases hsame
          exact ⟨List.mem_reverse.mp (List.mem_of_find?_eq_some hfind), List.find?_some hfind⟩

/-- A row with a Message-ID has a key of its own. -/
theorem Row.own_isSome (h : row.messageId.isSome) : (row.own mode).threadId.isSome := by
  obtain ⟨messageId, hid⟩ := Option.isSome_iff_exists.mp h
  unfold Row.own threadingForRow
  split
  · rfl
  · rw [hid]
    cases row.candidates with
    | nil => rfl
    | cons root rest =>
      simp only [find?_has_nil]
      rfl

theorem ne_empty_of_mem_scanReferences {cs : List Char} {id : Option (List Char)}
    (h : c ∈ scanReferences id cs) : c ≠ "" := by
  induction cs generalizing id with
  | nil => cases id <;> cases h
  | cons ch cs ih =>
    cases id with
    | none => exact ih h
    | some id =>
      rw [scanReferences] at h
      split at h
      · exact ih h
      · split at h
        · exact ih h
        · rcases List.mem_cons.mp h with rfl | h
          · intro hempty
            have hlist := congrArg String.toList hempty
            simp at hlist
          · exact ih h

theorem candidates_ne_empty (h : c ∈ row.candidates) : c ≠ "" := by
  have hreferences (hc : c ∈ (parseReferences row.thread_references).filter
      fun id => some id ≠ row.message_id) : c ≠ "" :=
    ne_empty_of_mem_scanReferences (List.mem_filter.mp hc).1
  unfold Row.candidates ancestorCandidates at h
  cases hreply : truthy row.in_reply_to with
  | none =>
    rw [hreply] at h
    exact hreferences h
  | some inReplyTo =>
    rw [hreply] at h
    dsimp only at h
    split at h
    · rcases List.mem_append.mp h with h | h
      · exact hreferences h
      · rw [List.mem_singleton.mp h]
        unfold truthy at hreply
        simpa using (Option.filter_eq_some_iff.mp hreply).2
    · exact hreferences h

end MailExpert.Threading
