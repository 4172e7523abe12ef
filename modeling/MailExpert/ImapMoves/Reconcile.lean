import MailExpert.ImapMoves.Emulated

/-!
# A move without a map of uids

Where the server names no uid, `bulkMoveMessages` looks which uids of the batch the source still has and counts what arrived in the destination.
Counts tell a stale uid (one the source did not have) from a moved one only while fewer letters arrive from elsewhere than the batch has stale
uids; where nothing was counted, the source is trusted.
-/

namespace MailExpert.ImapMoves

variable {uids l l' : List Nat} {uid n : Nat}

structure Classified where
  succeeded : List Nat
  failed : List Nat
  staleCount : Option Nat
  mappable : Bool
deriving DecidableEq

/-- `remainingUids` is none where the search gave no list. -/
def classifyMoveBySearch (uids : List Nat) (remainingUids : Option (List Nat)) (destArrived : Option Nat) : Classified :=
  match remainingUids with
  | none => { succeeded := [], failed := uids, staleCount := none, mappable := false }
  | some remaining =>
    let gone := uids.filter (!remaining.contains ·)
    let stillPresent := uids.filter (remaining.contains ·)
    if gone = [] then { succeeded := [], failed := uids, staleCount := some 0, mappable := false }
    else
      match destArrived with
      | none => { succeeded := gone, failed := stillPresent, staleCount := none, mappable := false }
      | some arrived =>
        if arrived < gone.length then { succeeded := [], failed := uids, staleCount := some (gone.length - arrived), mappable := false }
        else { succeeded := gone, failed := stillPresent, staleCount := some 0, mappable := arrived = gone.length }

/-- What a UID SEARCH on a connection of its own comes to. -/
inductive Found
  | list (uids : List Nat)
  | no
  | undefined
  | throws
deriving DecidableEq

def Found.list? : Found → Option (List Nat)
  | .list uids => some uids
  | .no => none
  | .undefined => none
  | .throws => none

structure Reconciled where
  uidMap : List (Nat × Nat)
  succeeded : List Nat
  failed : List Nat
  staleCount : Option Nat
deriving DecidableEq

def destNew (destUidNextBefore : Option Nat) (dest : Found) : Option (List Nat) :=
  match destUidNextBefore with
  | none => none
  -- `n:*` names the newest message also where none is new
  | some before => dest.list?.map fun found => found.filter (before ≤ ·)

def sortUids (uids : List Nat) : List Nat := uids.insertionSort (· ≤ ·)

def reconcileMoveBySearch (uids : List Nat) (source : Found) (destUidNextBefore : Option Nat) (dest : Found) : Reconciled :=
  match source.list? with
  | none => { uidMap := [], succeeded := [], failed := uids, staleCount := none }
  | some remaining =>
    let arrived := destNew destUidNextBefore dest
    let c := classifyMoveBySearch uids (some remaining) (arrived.map (·.length))
    { uidMap := if c.mappable then (sortUids c.succeeded).zip (sortUids (arrived.getD [])) else []
      succeeded := c.succeeded
      failed := c.failed
      staleCount := c.staleCount }

inductive Status
  | uidNext (uid : Nat)
  | unknown
  | throws
  | busy
deriving DecidableEq

def Status.uidNext? : Status → Option Nat
  | .uidNext uid => some uid
  | .unknown => none
  | .throws => none
  | .busy => none

inductive Session
  | answers (answer : Answer Moved)
  | throws
  | busy
deriving DecidableEq

/-- What the sessions of a bulk move come to. -/
structure Answers where
  status : Status
  session : Session
  /-- the search after a copy whose source stayed -/
  present : Found
  source : Found
  dest : Found

structure BulkMoved where
  uidMap : List (Nat × Nat)
  succeeded : List Nat
  failed : List Nat
  sourceRetained : Option (List Nat) := none
deriving DecidableEq

def BulkMoved.named (uids : List Nat) (uidMap : List (Nat × Nat)) (sourceRetained : Option (List Nat)) : BulkMoved where
  uidMap := uidMap
  succeeded := uids.filter ((uidMap.map (·.1)).contains ·)
  failed := uids.filter (!(uidMap.map (·.1)).contains ·)
  sourceRetained := sourceRetained

/-- `bulkMoveMessages`; nothing where it throws that the mailbox is busy. -/
def bulkMoveMessages (uids : List Nat) (answers : Answers) : Option BulkMoved :=
  if uids = [] then some { uidMap := [], succeeded := [], failed := [] }
  else if answers.status = .busy then none
  else
    let bySearch := reconcileMoveBySearch uids answers.source answers.status.uidNext? answers.dest
    let searched : BulkMoved := { uidMap := bySearch.uidMap, succeeded := bySearch.succeeded, failed := bySearch.failed }
    match answers.session with
    | .busy => none
    | .throws => some searched
    | .answers .no => some searched
    | .answers .undefined => some searched
    | .answers (.value moved) =>
      let uidMap := moved.uidMap.getD []
      if uidMap ≠ [] then some (.named uids uidMap (if moved.sourceRetained then some (uidMap.map (·.1)) else none))
      else if moved.sourceRetained then
        let kept := answers.present.list?.getD uids
        some { uidMap := [], succeeded := uids.filter (kept.contains ·), failed := uids.filter (!kept.contains ·), sourceRetained := some kept }
      else some searched

/-- A MOVE among deliveries by others. `source` are the uids the source has when it runs, `before` those of the destination at the STATUS, `newUid`
the uid a moved letter gets and `foreign` those of the letters that others deliver until the SEARCH. -/
structure Setting where
  source : List Nat
  uidNext : Nat
  before : List Nat
  newUid : Nat → Nat
  foreign : List Nat
  before_lt : ∀ uid ∈ before, uid < uidNext
  newUid_le : ∀ uid ∈ source, uidNext ≤ newUid uid
  newUid_lt : ∀ uid ∈ source, ∀ uid' ∈ source, uid < uid' → newUid uid < newUid uid'
  foreign_le : ∀ uid ∈ foreign, uidNext ≤ uid
  foreign_new : ∀ uid ∈ source, newUid uid ∉ foreign

variable {w : Setting} {answers : Answers}

def Setting.moved (w : Setting) (uids : List Nat) : List Nat := uids.filter (w.source.contains ·)

/-- The uids that it does not find. -/
def Setting.stale (w : Setting) (uids : List Nat) : List Nat := uids.filter (!w.source.contains ·)

/-- The uids of the destination at the SEARCH. -/
def Setting.dest (w : Setting) (uids : List Nat) : List Nat := w.before ++ (w.moved uids).map w.newUid ++ w.foreign

def searchSet (uids box : List Nat) : List Nat := box.filter (uids.contains ·)

/-- UID SEARCH of `n:*`, where `*` is the highest uid: the two ends may stand in either order. -/
def searchFrom (n : Nat) (box : List Nat) : List Nat :=
  match box.max? with
  | none => []
  | some star => box.filter fun uid => min n star ≤ uid && uid ≤ max n star

/-- The answers are those of the server, where they are answers. -/
structure Answers.Right (answers : Answers) (w : Setting) (uids : List Nat) : Prop where
  status : ∀ uid, answers.status = .uidNext uid → uid = w.uidNext
  source : ∀ found, answers.source = .list found → found.Perm (searchSet uids (w.source.filter (!uids.contains ·)))
  dest : ∀ found, answers.dest = .list found → found.Perm (searchFrom w.uidNext (w.dest uids))

/-- The MOVE went through and named no uid. -/
def Answers.Mapless (answers : Answers) : Prop :=
  answers.status ≠ .busy ∧ ∃ moved : Moved, answers.session = .answers (.value moved) ∧ moved.uidMap.getD [] = [] ∧ moved.sourceRetained = false

/-- Only letters that moved are reported as moved, and each uid is mapped to the new uid of its own letter. -/
def Truthful (w : Setting) (uids : List Nat) (r : BulkMoved) : Prop :=
  (∀ uid ∈ r.succeeded, uid ∈ w.moved uids) ∧ ∀ entry ∈ r.uidMap, entry.1 ∈ w.moved uids ∧ entry.2 = w.newUid entry.1

/-- What arrived was counted. -/
def Answers.Counted (answers : Answers) : Prop := ∃ uid found, answers.status = .uidNext uid ∧ answers.dest = .list found

theorem bulkMoveMessages_mapless (uids : List Nat) (h : answers.Mapless) : ∃ r, bulkMoveMessages uids answers = some r ∧
    (uids ≠ [] → r = { uidMap := (reconcileMoveBySearch uids answers.source answers.status.uidNext? answers.dest).uidMap
                       succeeded := (reconcileMoveBySearch uids answers.source answers.status.uidNext? answers.dest).succeeded
                       failed := (reconcileMoveBySearch uids answers.source answers.status.uidNext? answers.dest).failed }) := by
  obtain ⟨hbusy, moved, hsession, hmap, hretained⟩ := h
  by_cases hnil : uids = []
  · exact ⟨_, if_pos hnil, fun h => absurd hnil h⟩
  · refine ⟨_, ?_, fun _ => rfl⟩
    simp [bulkMoveMessages, hnil, hbusy, hsession, hmap, hretained]

/-- Nothing of the batch is left in the source. -/
theorem Answers.Right.remaining {found : List Nat} (h : answers.Right w uids) (hfound : answers.source = .list found) : found = [] := by
  have hperm := h.source found hfound
  have hnone : searchSet uids (w.source.filter (!uids.contains ·)) = [] := by
    rw [searchSet, List.filter_filter, List.filter_eq_nil_iff]
    simp
  rw [hnone] at hperm
  exact hperm.eq_nil

theorem filter_searchFrom {box : List Nat} : (searchFrom n box).filter (n ≤ ·) = box.filter (n ≤ ·) := by
  rw [searchFrom]
  cases hmax : box.max? with
  | none => rw [List.max?_eq_none_iff.mp hmax]
  | some star =>
    rw [List.filter_filter]
    refine List.filter_congr fun uid huid => ?_
    have hle : uid ≤ star := (List.max?_eq_some_iff.mp hmax).2 uid huid
    by_cases hn : n ≤ uid
    · have h1 : min n star ≤ uid := (Nat.min_le_left n star).trans hn
      have h2 : uid ≤ max n star := hle.trans (Nat.le_max_right n star)
      simp [hn, h1, h2]
    · simp [hn]

/-- What is counted are the moved letters and those of others. -/
theorem Answers.Right.arrived {found : List Nat} (h : answers.Right w uids) (hfound : answers.dest = .list found) :
    (found.filter (w.uidNext ≤ ·)).Perm ((w.moved uids).map w.newUid ++ w.foreign) := by
  refine ((h.dest found hfound).filter _).trans ?_
  rw [filter_searchFrom, Setting.dest, List.filter_append, List.filter_append]
  have hbefore : w.before.filter (w.uidNext ≤ ·) = [] := by
    rw [List.filter_eq_nil_iff]
    intro uid huid
    simpa using w.before_lt uid huid
  have hmoved : ((w.moved uids).map w.newUid).filter (w.uidNext ≤ ·) = (w.moved uids).map w.newUid := by
    rw [List.filter_eq_self]
    intro uid huid
    obtain ⟨old, hold, rfl⟩ := List.mem_map.mp huid
    have hsource : old ∈ w.source := by simpa using (List.mem_filter.mp hold).2
    simpa using w.newUid_le old hsource
  have hforeign : w.foreign.filter (w.uidNext ≤ ·) = w.foreign := by
    rw [List.filter_eq_self]
    intro uid huid
    simpa using w.foreign_le uid huid
  rw [hbefore, hmoved, hforeign, List.nil_append]

theorem length_moved_stale (w : Setting) (uids : List Nat) : (w.moved uids).length + (w.stale uids).length = uids.length := by
  rw [Setting.moved, Setting.stale, ← List.length_append]
  exact (List.filter_append_perm (w.source.contains ·) uids).length_eq

theorem moved_of_no_stale (h : w.stale uids = []) : w.moved uids = uids := by
  rw [Setting.stale, List.filter_eq_nil_iff] at h
  rw [Setting.moved, List.filter_eq_self]
  intro uid huid
  simpa using h uid huid

/-! ## What is reported -/

theorem classify_nil (hne : uids ≠ []) {destArrived : Option Nat} : classifyMoveBySearch uids (some []) destArrived =
    if destArrived.any (· < uids.length) then
      { succeeded := [], failed := uids, staleCount := destArrived.map (uids.length - ·), mappable := false }
    else { succeeded := uids, failed := [], staleCount := destArrived.map fun _ => 0, mappable := destArrived = some uids.length } := by
  have hgone : uids.filter (fun uid => !([] : List Nat).contains uid) = uids := by simp
  have hpresent : uids.filter (([] : List Nat).contains ·) = [] := by simp
  cases destArrived with
  | none => simp [classifyMoveBySearch, hne]
  | some arrived => simp [classifyMoveBySearch, hne]

theorem sortUids_perm : (sortUids l).Perm l := List.perm_insertionSort _ _

theorem sortUids_congr (h : l.Perm l') : sortUids l = sortUids l' :=
  ((sortUids_perm.trans h).trans sortUids_perm.symm).eq_of_pairwise' (List.pairwise_insertionSort _ _) (List.pairwise_insertionSort _ _)

theorem sortUids_map (h : ∀ uid ∈ l, ∀ uid' ∈ l, uid < uid' → w.newUid uid < w.newUid uid') : sortUids (l.map w.newUid) = (sortUids l).map w.newUid := by
  refine (sortUids_perm.trans (sortUids_perm.symm.map _)).eq_of_pairwise' (List.pairwise_insertionSort _ _) ?_
  rw [List.pairwise_map]
  refine (List.pairwise_insertionSort (· ≤ ·) l).imp_of_mem fun {uid uid'} huid huid' hle => ?_
  rcases hle.eq_or_lt with rfl | hlt
  · exact le_rfl
  · exact (h uid (sortUids_perm.mem_iff.mp huid) uid' (sortUids_perm.mem_iff.mp huid') hlt).le

theorem mem_zip_map {entry : Nat × Nat} {f : Nat → Nat} (h : entry ∈ l.zip (l.map f)) : entry.1 ∈ l ∧ entry.2 = f entry.1 := by
  rw [← List.map_prod_left_eq_zip] at h
  obtain ⟨uid, huid, rfl⟩ := List.mem_map.mp h
  exact ⟨huid, rfl⟩

/-- What is reported where the source search gave a list and `counted` says how many letters arrived. -/
theorem reconcile_list {source : Found} (dest : Found) (before : Option Nat) (hsource : source.list? = some []) (hne : uids ≠ []) :
    let arrived := destNew before dest
    let r := reconcileMoveBySearch uids source before dest
    ((∃ found, arrived = some found ∧ found.length < uids.length) → r.succeeded = [] ∧ r.failed = uids ∧ r.uidMap = []) ∧
      (¬(∃ found, arrived = some found ∧ found.length < uids.length) → r.succeeded = uids ∧ r.failed = [] ∧
        r.uidMap = if arrived.map (·.length) = some uids.length then (sortUids uids).zip (sortUids (arrived.getD [])) else []) := by
  intro arrived r
  have hr : r = reconcileMoveBySearch uids source before dest := rfl
  rw [reconcileMoveBySearch, hsource] at hr
  dsimp only at hr
  rw [classify_nil hne] at hr
  change r = { uidMap := _, succeeded := _, failed := _, staleCount := _ } at hr
  have harrived : arrived = destNew before dest := rfl
  rw [← harrived] at hr
  cases hfound : arrived with
  | none =>
    rw [hfound] at hr
    simp [hr]
  | some found =>
    rw [hfound] at hr
    by_cases hlt : found.length < uids.length
    · simp [hr, hlt]
    · simp [hr, hlt]

theorem Answers.Right.destNew (h : answers.Right w uids) {found : List Nat} (hnew : destNew answers.status.uidNext? answers.dest = some found) :
    answers.Counted ∧ found.Perm ((w.moved uids).map w.newUid ++ w.foreign) := by
  obtain ⟨status, session, present, source, dest⟩ := answers
  cases status with
  | uidNext uid =>
    cases dest with
    | list all =>
      cases hnew
      obtain rfl := h.status uid rfl
      exact ⟨⟨_, _, rfl, rfl⟩, h.arrived rfl⟩
    | no => cases hnew
    | undefined => cases hnew
    | throws => cases hnew
  | unknown => cases hnew
  | throws => cases hnew
  | busy => cases hnew

theorem Answers.Counted.destNew (h : answers.Counted) : ∃ found, destNew answers.status.uidNext? answers.dest = some found := by
  obtain ⟨uid, found, hstatus, hdest⟩ := h
  rw [hstatus, hdest]
  exact ⟨_, rfl⟩

/-- Fewer letters than the batch were counted exactly where fewer came from elsewhere than the batch has stale uids. -/
theorem Answers.Right.fewer_iff (h : answers.Right w uids) :
    (∃ found, MailExpert.ImapMoves.destNew answers.status.uidNext? answers.dest = some found ∧ found.length < uids.length) ↔
      answers.Counted ∧ w.foreign.length < (w.stale uids).length := by
  have hsum := length_moved_stale w uids
  constructor
  · rintro ⟨found, hnew, hlt⟩
    obtain ⟨hcounted, hperm⟩ := h.destNew hnew
    refine ⟨hcounted, ?_⟩
    have hlength := hperm.length_eq
    rw [List.length_append, List.length_map] at hlength
    omega
  · rintro ⟨hcounted, hlt⟩
    obtain ⟨found, hnew⟩ := hcounted.destNew
    refine ⟨found, hnew, ?_⟩
    have hlength := (h.destNew hnew).2.length_eq
    rw [List.length_append, List.length_map] at hlength
    omega

/-- A batch without a stale uid is mapped, if it is, to the uids its letters got. -/
theorem Answers.Right.mapped (h : answers.Right w uids) (hstale : w.stale uids = []) {found : List Nat}
    (hnew : MailExpert.ImapMoves.destNew answers.status.uidNext? answers.dest = some found) (hlength : found.length = uids.length) :
    sortUids found = (sortUids uids).map w.newUid := by
  have hmoved := moved_of_no_stale hstale
  have hperm := (h.destNew hnew).2
  have hsum := hperm.length_eq
  rw [hmoved, List.length_append, List.length_map] at hsum
  have hforeign : w.foreign = [] := List.eq_nil_of_length_eq_zero (by omega)
  rw [hmoved, hforeign, List.append_nil] at hperm
  rw [sortUids_congr hperm]
  have hsource : ∀ uid ∈ uids, uid ∈ w.source := by
    rw [Setting.stale, List.filter_eq_nil_iff] at hstale
    intro uid huid
    simpa using hstale uid huid
  exact sortUids_map fun uid huid uid' huid' => w.newUid_lt uid (hsource uid huid) uid' (hsource uid' huid')

/-- A bulk move that is answered without a map reports each uid once, and only what really moved exactly where the source search gave no list,
where the batch has no stale uid, or where what arrived was counted and fewer letters came from elsewhere than the batch has stale uids. -/
theorem bulkMoveMessages_truthful (uids : List Nat) (w : Setting) (answers : Answers) (hright : answers.Right w uids) (hmap : answers.Mapless) :
    ∃ r, bulkMoveMessages uids answers = some r ∧ (r.succeeded ++ r.failed).Perm uids ∧
      (Truthful w uids r ↔ answers.source.list? = none ∨ w.stale uids = [] ∨ answers.Counted ∧ w.foreign.length < (w.stale uids).length) := by
  obtain ⟨r, hrun, hr⟩ := bulkMoveMessages_mapless uids hmap
  refine ⟨r, hrun, ?_⟩
  by_cases hne : uids = []
  · subst hne
    cases hrun
    exact ⟨.nil, iff_of_true ⟨by simp, by simp⟩ (.inr (.inl rfl))⟩
  have hr := hr hne
  cases hsource : answers.source.list? with
  | none =>
    rw [reconcileMoveBySearch, hsource] at hr
    rw [hr]
    exact ⟨.refl _, iff_of_true ⟨by simp, by simp⟩ (.inl rfl)⟩
  | some remaining =>
    have hnil : remaining = [] := by
      cases hfound : answers.source with
      | list found =>
        rw [hfound] at hsource
        cases hsource
        exact hright.remaining hfound
      | no => rw [hfound] at hsource; cases hsource
      | undefined => rw [hfound] at hsource; cases hsource
      | throws => rw [hfound] at hsource; cases hsource
    subst hnil
    obtain ⟨hfewer, hother⟩ := reconcile_list answers.dest answers.status.uidNext? hsource hne
    by_cases hcount : ∃ found, destNew answers.status.uidNext? answers.dest = some found ∧ found.length < uids.length
    · obtain ⟨hs, hf, hm⟩ := hfewer hcount
      rw [hr, hs, hf, hm]
      exact ⟨.refl _, iff_of_true ⟨by simp, by simp⟩ (.inr (.inr (hright.fewer_iff.mp hcount)))⟩
    · obtain ⟨hs, hf, hm⟩ := hother hcount
      rw [hr, hs, hf, hm]
      refine ⟨by simp, ⟨fun htrue => .inr (.inl ?_), fun h => ?_⟩⟩
      · rw [Setting.stale, List.filter_eq_nil_iff]
        intro uid huid
        simpa using (List.mem_filter.mp (htrue.1 uid huid)).2
      · have hstale : w.stale uids = [] := by
          rcases h with h | h | h
          · cases h
          · exact h
          · exact absurd (hright.fewer_iff.mpr h) hcount
        refine ⟨fun uid huid => (moved_of_no_stale hstale).symm ▸ huid, fun entry hentry => ?_⟩
        dsimp only at hentry
        split_ifs at hentry with hlength
        · obtain ⟨found, hnew, hlen⟩ := Option.map_eq_some_iff.mp hlength
          rw [hnew, Option.getD_some, hright.mapped hstale hnew hlen] at hentry
          obtain ⟨hmem, heq⟩ := mem_zip_map hentry
          exact ⟨(moved_of_no_stale hstale).symm ▸ sortUids_perm.mem_iff.mp hmem, heq⟩
        · cases hentry

/-- Uid 2 is stale, and as many letters as `foreign` has come from elsewhere. -/
def staleSetting (foreign : List Nat) (h : ∀ uid ∈ foreign, 11 ≤ uid) : Setting where
  source := [1]
  uidNext := 10
  before := [4]
  newUid := (· + 9)
  foreign := foreign
  before_lt := by decide
  newUid_le := by decide
  newUid_lt := fun _ _ _ _ hlt => Nat.add_lt_add_right hlt 9
  foreign_le := fun uid huid => (Nat.le_succ 10).trans (h uid huid)
  foreign_new := by
    intro uid huid hmem
    rw [List.mem_singleton] at huid
    have := h _ hmem
    omega

/-- The source search answers, the one in the destination comes to `dest`. -/
def destAnswers (dest : Found) : Answers where
  status := .uidNext 10
  session := .answers (.value { uidMap := none })
  present := .list []
  source := .list []
  dest := dest

theorem destAnswers_right {dest : Found} {foreign : List Nat} {h : ∀ uid ∈ foreign, 11 ≤ uid}
    (hdest : ∀ found, dest = .list found → found.Perm (searchFrom 10 ((staleSetting foreign h).dest [1, 2]))) :
    (destAnswers dest).Right (staleSetting foreign h) [1, 2] := by
  refine ⟨fun uid huid => ?_, fun all hall => ?_, hdest⟩
  · cases huid
    rfl
  · cases hall
    exact .nil

theorem destAnswers_mapless {dest : Found} : (destAnswers dest).Mapless := ⟨Status.noConfusion, { uidMap := none }, rfl, rfl, rfl⟩

theorem bulkMoveMessages_truthful_stale : ∃ r, bulkMoveMessages [1, 2] (destAnswers (.list [10])) = some r ∧ (r.succeeded ++ r.failed).Perm [1, 2] ∧
    Truthful (staleSetting [] (by simp)) [1, 2] r := by
  obtain ⟨r, hr, hperm, htrue⟩ := bulkMoveMessages_truthful [1, 2] (staleSetting [] (by simp)) (destAnswers (.list [10]))
    (destAnswers_right fun found hfound => by
      cases hfound
      decide) destAnswers_mapless
  exact ⟨r, hr, hperm, htrue.mpr (.inr (.inr ⟨⟨10, [10], rfl, rfl⟩, by decide⟩))⟩

/-- A stale uid is reported as moved where the destination could not be searched, and where a letter from elsewhere makes up for it in the count,
which then also gets its uid. -/
theorem not_bulkMoveMessages_truthful :
    ((destAnswers .no).Right (staleSetting [] (by simp)) [1, 2] ∧ (destAnswers .no).Mapless ∧
      ∃ r, bulkMoveMessages [1, 2] (destAnswers .no) = some r ∧ 2 ∈ r.succeeded ∧ 2 ∉ (staleSetting [] (by simp)).moved [1, 2]) ∧
    (destAnswers (.list [10, 11])).Right (staleSetting [11] (by simp)) [1, 2] ∧ (destAnswers (.list [10, 11])).Mapless ∧
      ∃ r, bulkMoveMessages [1, 2] (destAnswers (.list [10, 11])) = some r ∧ 2 ∈ r.succeeded ∧ (2, 11) ∈ r.uidMap ∧
        2 ∉ (staleSetting [11] (by simp)).moved [1, 2] := by
  refine ⟨⟨destAnswers_right fun found hfound => (by cases hfound), destAnswers_mapless, _, rfl, by decide, by decide⟩,
    destAnswers_right fun found hfound => ?_, destAnswers_mapless, _, rfl, by decide, by decide, by decide⟩
  cases hfound
  decide

end MailExpert.ImapMoves
