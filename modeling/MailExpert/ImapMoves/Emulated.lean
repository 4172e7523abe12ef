import MailExpert.ImapMoves.Client

/-!
# Moves and expunges without the server's own

`expungeUids` takes the deleted mark off the other messages while a plain EXPUNGE runs, `moveUids` copies and then expunges. Both stop where a
command answers `false`. An `undefined` is read as done: then the others may go with the EXPUNGE (`TakesOthers`), or a message of the range
stays while the answer is true (`LeavesOwn`).
-/

namespace MailExpert.ImapMoves

variable {l l' : List Message} {m m' : Message} {range others : UidSet} {client : Client} {s t : Server}

/-- The others with the deleted mark, without UIDPLUS; nothing where a search gives no list. -/
def Client.findOthers (client : Client) (range : UidSet) : Prog Server Unit (Option UidSet) := do
  let ours ← client.search .searchOurs fun m => range.has m.uid
  let flagged ← client.search .searchFlagged (·.deleted)
  match ours, flagged with
  | .value ours, .value flagged => return some (packUidRange (flagged.filter (!ours.contains ·)))
  | _, _ => return none

def Client.unflag (client : Client) (others : UidSet) : Prog Server Unit (Option UidSet) := do
  if others ≠ [] then
    if (← client.messageFlags .unflagOthers false others) = .no then return none
  return some others

/-- What `expungeUids` does before its `try`; nothing where it stops. -/
def Client.unflagOthers (client : Client) (range : UidSet) : Prog Server Unit (Option UidSet) := do
  match ← client.findOthers range with
  | none => return none
  | some others => client.unflag others

/-- The end of its `try`: after a plain EXPUNGE only a search says whether the range is gone. -/
def Client.confirm (client : Client) (range : UidSet) : Prog Server Unit Bool := do
  if !client.plainExpunge then return true
  let left ← client.search .searchLeft fun m => range.has m.uid
  return left = .value []

/-- The `try` of `expungeUids`. -/
def Client.expungeFlagged (client : Client) (range : UidSet) : Prog Server Unit Bool := do
  if (← client.messageFlags .flag true range) = .no then return false
  if (← client.messageDelete range) = .no then return false
  client.confirm range

/-- Its `finally`: what goes wrong there is only logged. -/
def Client.reflagOthers (client : Client) (others : UidSet) (s : Server) : Server :=
  if others ≠ [] ∧ client.reply .reflagOthers = .done then { s with source := s.source.store true others } else s

def expungeUids (client : Client) (range : UidSet) : Prog Server Unit Bool := do
  match ← (if client.plainExpunge then client.unflagOthers range else pure (some [])) with
  | none => return false
  | some others => (client.expungeFlagged range).andFinally (client.reflagOthers others)

/-- imapflow's own test for MOVE. -/
def Client.hasMove (client : Client) : Bool :=
  client.capabilities.contains "MOVE" || client.enabled.contains "IMAP4REV2" ||
    (client.capabilities.contains "IMAP4rev2" && !client.capabilities.contains "IMAP4rev1")

structure Moved where
  uidMap : Option (List (Nat × Nat))
  sourceRetained : Bool := false
deriving DecidableEq

def moveUids (client : Client) (range : UidSet) : Prog Server Unit (Answer Moved) := do
  if client.hasMove then
    match ← client.messageMove range with
    | .value uidMap => return .value { uidMap }
    | .no => return .no
    | .undefined => return .undefined
  else
    match ← client.messageCopy range with
    | .value uidMap =>
      if uidMap = some [] then return .no
      let toDelete := uidMap.elim range fun map => map.map fun entry => (entry.1, entry.1)
      if ← expungeUids client toDelete then return .value { uidMap }
      return .value { uidMap, sourceRetained := true }
    | .no => return .no
    | .undefined => return .no

/-! ## What the parts do -/

/-- Not refused, so the code goes on: carried out, or `undefined`. -/
def Client.goesOn (client : Client) (command : Command) : Prop := client.reply command = .done ∨ client.reply command = .undefined

instance {command : Command} : Decidable (client.goesOn command) := inferInstanceAs (Decidable (_ ∨ _))

def Client.flagged (client : Client) (range : UidSet) (box : Mailbox) : Mailbox :=
  if client.reply .flag = .done then box.store true range else box

/-- The source after the `try` of `expungeUids`. -/
def Client.expunged (client : Client) (range : UidSet) (box : Mailbox) : Mailbox :=
  if client.goesOn .flag ∧ client.reply .expunge = .done then (client.flagged range box).keep (client.left range) else client.flagged range box

theorem confirm_spec (client : Client) (range : UidSet) (s : Server) : (client.confirm range s).2 = s ∧ ((client.confirm range s).1 = .ok true ↔
    (client.plainExpunge → client.reply .searchLeft = .done ∧ ∀ m ∈ s.source.messages, range.has m.uid = false)) := by
  cases hp : client.plainExpunge with
  | false =>
    have hrun : client.confirm range s = (.ok true, s) := by
      rw [Client.confirm, hp]
      rfl
    simp [hrun]
  | true =>
    have hconfirm : client.confirm range =
        (client.search .searchLeft fun m => range.has m.uid) >>= fun left => pure (decide (left = .value [])) := by
      rw [Client.confirm, hp]
      rfl
    rw [hconfirm, Client.search]
    cases h : client.reply .searchLeft with
    | done =>
      rw [Prog.bind_ok (send_done h)]
      simp [pure]
    | no =>
      rw [Prog.bind_ok (send_no h)]
      simp [pure]
    | undefined =>
      rw [Prog.bind_ok (send_undefined h)]
      simp [pure]
    | throws =>
      rw [Prog.bind_error (send_throws h)]
      simp

/-- A command and what comes after it unless it is refused. -/
def Client.orStop (client : Client) (command : Command) (effect : Server → Server) (rest : Prog Server Unit Bool) : Prog Server Unit Bool := do
  if (← client.send command (fun _ => ()) effect) = .no then return false
  rest

theorem orStop_goesOn {command : Command} {effect : Server → Server} {rest : Prog Server Unit Bool} (h : client.goesOn command) :
    client.orStop command effect rest s = rest (if client.reply command = .done then effect s else s) := by
  rcases h with h | h
  · rw [if_pos h]
    exact Prog.bind_ok (send_done h)
  · rw [if_neg (by simp [h])]
    exact Prog.bind_ok (send_undefined h)

theorem orStop_stops {command : Command} (effect : Server → Server) (rest : Prog Server Unit Bool) (s : Server) (h : ¬client.goesOn command) :
    (client.orStop command effect rest s).2 = s ∧ (client.orStop command effect rest s).1 ≠ .ok true := by
  cases hr : client.reply command with
  | done => exact absurd (.inl hr) h
  | undefined => exact absurd (.inr hr) h
  | no =>
    have hrun : client.orStop command effect rest s = (.ok false, s) := Prog.bind_ok (send_no hr)
    simp [hrun]
  | throws =>
    have hrun : client.orStop command effect rest s = (.error (), s) := Prog.bind_error (send_throws hr)
    simp [hrun]

theorem expungeFlagged_eq : client.expungeFlagged range =
    client.orStop .flag (fun s => { s with source := s.source.store true range })
      (client.orStop .expunge (fun s => { s with source := s.source.keep (client.left range) }) (client.confirm range)) := rfl

theorem flagged_eq : (if client.reply .flag = .done then { s with source := s.source.store true range } else s) =
    { s with source := client.flagged range s.source } := by
  rw [Client.flagged]
  split_ifs <;> rfl

theorem expunged_eq (h : client.goesOn .flag) : (if client.reply .expunge = .done then
    { s with source := (client.flagged range s.source).keep (client.left range) } else { s with source := client.flagged range s.source }) =
    { s with source := client.expunged range s.source } := by
  rw [Client.expunged]
  by_cases he : client.reply .expunge = .done
  · rw [if_pos he, if_pos ⟨h, he⟩]
  · rw [if_neg he, if_neg fun h => he h.2]

theorem expungeFlagged_spec : (client.expungeFlagged range s).2 = { s with source := client.expunged range s.source } ∧
    ((client.expungeFlagged range s).1 = .ok true ↔ client.goesOn .flag ∧ client.goesOn .expunge ∧
      (client.plainExpunge → client.reply .searchLeft = .done ∧ ∀ m ∈ (client.expunged range s.source).messages, range.has m.uid = false)) := by
  rw [expungeFlagged_eq]
  by_cases hf : client.goesOn .flag
  · rw [orStop_goesOn hf, flagged_eq]
    by_cases he : client.goesOn .expunge
    · rw [orStop_goesOn he, expunged_eq hf]
      obtain ⟨hstate, htrue⟩ := confirm_spec client range { s with source := client.expunged range s.source }
      refine ⟨hstate, htrue.trans ?_⟩
      simp [hf, he]
    · have hsame : client.expunged range s.source = client.flagged range s.source := if_neg fun h => he (.inl h.2)
      obtain ⟨hstate, htrue⟩ := orStop_stops (fun s => { s with source := s.source.keep (client.left range) }) (client.confirm range)
        { s with source := client.flagged range s.source } he
      rw [hsame]
      exact ⟨hstate, iff_of_false htrue fun h => he h.2.1⟩
  · have hsame : client.expunged range s.source = s.source := by
      rw [Client.expunged, if_neg fun h => hf h.1, Client.flagged, if_neg fun h => hf (.inl h)]
    obtain ⟨hstate, htrue⟩ := orStop_stops (fun s => { s with source := s.source.store true range })
      (client.orStop .expunge (fun s => { s with source := s.source.keep (client.left range) }) (client.confirm range)) s hf
    rw [hsame]
    exact ⟨hstate, iff_of_false htrue fun h => hf h.1⟩

def othersOf (range : UidSet) (box : Mailbox) : UidSet := packUidRange (((box.messages.filter (·.deleted)).map (·.uid)).filter (!range.has ·))

/-- Both searches gave a list. -/
def Client.searched (client : Client) : Prop := client.reply .searchOurs = .done ∧ client.reply .searchFlagged = .done

instance : Decidable client.searched := inferInstanceAs (Decidable (_ ∧ _))

/-- The source after the others are unmarked. -/
def Client.unflagged (client : Client) (range : UidSet) (box : Mailbox) : Mailbox :=
  if othersOf range box ≠ [] ∧ client.reply .unflagOthers = .done then box.store false (othersOf range box) else box

theorem othersOf_eq {box : Mailbox} :
    packUidRange (((box.messages.filter (·.deleted)).map (·.uid)).filter
      (!((box.messages.filter fun m => range.has m.uid).map (·.uid)).contains ·)) = othersOf range box := by
  refine congrArg packUidRange (List.filter_congr fun uid huid => ?_)
  obtain ⟨m, hm, rfl⟩ := List.mem_map.mp huid
  have hmem : m ∈ box.messages := List.mem_of_mem_filter hm
  refine congrArg not (Bool.eq_iff_iff.mpr ?_)
  rw [List.contains_iff_mem, List.mem_map]
  constructor
  · rintro ⟨m', hm', heq⟩
    rw [← heq]
    exact (List.mem_filter.mp hm').2
  · exact fun hhas => ⟨m, List.mem_filter.mpr ⟨hmem, hhas⟩, rfl⟩

theorem findOthers_searched (h : client.searched) : client.findOthers range s = (.ok (some (othersOf range s.source)), s) := by
  rw [Client.findOthers, Client.search, Client.search, Prog.bind_ok (send_done h.1), Prog.bind_ok (send_done h.2), ← othersOf_eq]
  rfl

theorem findOthers_stops (range : UidSet) (s : Server) (h : ¬client.searched) :
    client.findOthers range s = (.ok none, s) ∨ client.findOthers range s = (.error (), s) := by
  cases hours : client.reply .searchOurs <;> cases hflagged : client.reply .searchFlagged
  case done.done => exact absurd ⟨hours, hflagged⟩ h
  all_goals simp [Client.findOthers, Client.search, Client.send, hours, hflagged, bind, pure]

theorem unflag_goesOn (h : others = [] ∨ client.goesOn .unflagOthers) : client.unflag others s =
    (.ok (some others), if others ≠ [] ∧ client.reply .unflagOthers = .done then { s with source := s.source.store false others } else s) := by
  by_cases hne : others = []
  · subst hne
    rfl
  · have h := h.resolve_left hne
    cases hr : client.reply .unflagOthers
    case done => simp [Client.unflag, Client.messageFlags, Client.send, hne, hr, bind, pure]
    case undefined => simp [Client.unflag, Client.messageFlags, Client.send, hne, hr, bind, pure]
    all_goals simp [Client.goesOn, hr] at h

theorem unflag_stops (hne : others ≠ []) (h : ¬client.goesOn .unflagOthers) :
    client.unflag others s = (.ok none, s) ∨ client.unflag others s = (.error (), s) := by
  cases hr : client.reply .unflagOthers
  case done => exact absurd (.inl hr) h
  case undefined => exact absurd (.inr hr) h
  all_goals simp [Client.unflag, Client.messageFlags, Client.send, hne, hr, bind, pure]

theorem unflagOthers_goesOn (hs : client.searched) (h : othersOf range s.source = [] ∨ client.goesOn .unflagOthers) :
    client.unflagOthers range s = (.ok (some (othersOf range s.source)), { s with source := client.unflagged range s.source }) := by
  have hrun : client.unflagOthers range s = client.unflag (othersOf range s.source) s := Prog.bind_ok (findOthers_searched hs)
  rw [hrun, unflag_goesOn h, Client.unflagged]
  split_ifs <;> rfl

theorem unflagOthers_stops (h : ¬(client.searched ∧ (othersOf range s.source = [] ∨ client.goesOn .unflagOthers))) :
    client.unflagOthers range s = (.ok none, s) ∨ client.unflagOthers range s = (.error (), s) := by
  by_cases hs : client.searched
  · have hrun : client.unflagOthers range s = client.unflag (othersOf range s.source) s := Prog.bind_ok (findOthers_searched hs)
    rw [hrun]
    exact unflag_stops (fun hnil => h ⟨hs, .inl hnil⟩) fun hgoes => h ⟨hs, .inr hgoes⟩
  · rcases findOthers_stops range s hs with hrun | hrun
    · exact .inl (Prog.bind_ok hrun)
    · exact .inr (Prog.bind_error hrun)

/-- Nothing stops `expungeUids` before its `try`. -/
def Client.starts (client : Client) (range : UidSet) (box : Mailbox) : Prop :=
  client.plainExpunge → client.searched ∧ (othersOf range box = [] ∨ client.goesOn .unflagOthers)

/-- The source in the `try` of `expungeUids`, and the others. -/
def Client.protected (client : Client) (range : UidSet) (box : Mailbox) : Mailbox × UidSet :=
  if client.plainExpunge then (client.unflagged range box, othersOf range box) else (box, [])

theorem expungeUids_starts (h : client.starts range s.source) : expungeUids client range s =
    (client.expungeFlagged range).andFinally (client.reflagOthers (client.protected range s.source).2)
      { s with source := (client.protected range s.source).1 } := by
  rw [Client.protected]
  cases hp : client.plainExpunge with
  | true =>
    obtain ⟨hs, hgoes⟩ := h hp
    have hfirst : (if client.plainExpunge then client.unflagOthers range else pure (some [])) = client.unflagOthers range := if_pos hp
    rw [expungeUids, hfirst, Prog.bind_ok (unflagOthers_goesOn hs hgoes)]
    rfl
  | false =>
    have hfirst : (if client.plainExpunge then client.unflagOthers range else pure (some [])) = (pure (some []) : Prog Server Unit (Option UidSet)) :=
      if_neg (by simp [hp])
    rw [expungeUids, hfirst]
    rfl

theorem expungeUids_stops (h : ¬client.starts range s.source) :
    expungeUids client range s = (.ok false, s) ∨ expungeUids client range s = (.error (), s) := by
  rw [Client.starts, Classical.not_imp] at h
  obtain ⟨hp, h⟩ := h
  have hfirst : (if client.plainExpunge then client.unflagOthers range else pure (some [])) = client.unflagOthers range := if_pos hp
  rw [expungeUids, hfirst]
  rcases unflagOthers_stops h with hrun | hrun
  · exact .inl (Prog.bind_ok hrun)
  · exact .inr (Prog.bind_error hrun)

/-- The source after `expungeUids`. -/
def Client.after (client : Client) (range : UidSet) (box : Mailbox) : Mailbox :=
  let expunged := client.expunged range (client.protected range box).1
  if (client.protected range box).2 ≠ [] ∧ client.reply .reflagOthers = .done then expunged.store true (client.protected range box).2 else expunged

theorem expungeUids_state (h : client.starts range s.source) : (expungeUids client range s).2 = { s with source := client.after range s.source } := by
  rw [expungeUids_starts h]
  change client.reflagOthers _ (client.expungeFlagged range _).2 = _
  rw [expungeFlagged_spec.1, Client.reflagOthers, Client.after]
  split_ifs <;> rfl

theorem expungeUids_true : (expungeUids client range s).1 = .ok true ↔ client.starts range s.source ∧ client.goesOn .flag ∧ client.goesOn .expunge ∧
    (client.plainExpunge → client.reply .searchLeft = .done ∧
      ∀ m ∈ (client.expunged range (client.protected range s.source).1).messages, range.has m.uid = false) := by
  by_cases h : client.starts range s.source
  · rw [expungeUids_starts h]
    exact expungeFlagged_spec.2.trans ⟨fun hx => ⟨h, hx⟩, fun hx => hx.2⟩
  · refine iff_of_false (fun htrue => ?_) fun htrue => h htrue.1
    rcases expungeUids_stops h with hrun | hrun <;> rw [hrun] at htrue <;> cases htrue

/-! ## The messages outside the range -/

variable {box : Mailbox}

def outside (range : UidSet) (l : List Message) : List Message := l.filter fun m => !range.has m.uid

/-- A message without its deleted mark. -/
def Message.kept (m : Message) : Nat × Nat := (m.uid, m.letter)

theorem eq_of_uid (hm : m ∈ box.messages) (hm' : m' ∈ box.messages) (h : m.uid = m'.uid) : m = m' :=
  List.inj_on_of_nodup_map box.nodup hm hm' h

theorem has_othersOf (hm : m ∈ box.messages) : (othersOf range box).has m.uid ↔ m.deleted ∧ range.has m.uid = false := by
  rw [othersOf, has_packUidRange, List.mem_filter, List.mem_map, Bool.not_eq_true']
  refine and_congr ⟨?_, fun hd => ⟨m, List.mem_filter.mpr ⟨hm, hd⟩, rfl⟩⟩ Iff.rfl
  rintro ⟨m', hm', huid⟩
  obtain ⟨hmem, hd⟩ := List.mem_filter.mp hm'
  exact eq_of_uid hmem hm huid ▸ hd

theorem othersOf_ne_nil : othersOf range box ≠ [] ↔ ∃ m ∈ box.messages, m.deleted ∧ range.has m.uid = false := by
  rw [othersOf, Ne, packUidRange_eq_nil]
  constructor
  · intro h
    obtain ⟨uid, hmem⟩ := List.exists_mem_of_ne_nil _ h
    obtain ⟨huid, hhas⟩ := List.mem_filter.mp hmem
    obtain ⟨m, hm, rfl⟩ := List.mem_map.mp huid
    obtain ⟨hm, hd⟩ := List.mem_filter.mp hm
    exact ⟨m, hm, hd, by simpa using hhas⟩
  · rintro ⟨m, hm, hd, hhas⟩
    exact List.ne_nil_of_mem (List.mem_filter.mpr ⟨List.mem_map.mpr ⟨m, List.mem_filter.mpr ⟨hm, hd⟩, rfl⟩, by simpa using hhas⟩)

theorem outside_store_range {deleted : Bool} : outside range (store deleted range l) = outside range l := by
  rw [outside, store, List.filter_map, outside]
  have hp : ((fun m : Message => !range.has m.uid) ∘ fun m => if range.has m.uid then { m with deleted := deleted } else m) =
      fun m => !range.has m.uid := by
    funext m
    by_cases h : range.has m.uid <;> simp [h]
  rw [hp]
  refine (List.map_congr_left fun m hm => ?_).trans (List.map_id _)
  have hout := (List.mem_filter.mp hm).2
  rw [Bool.not_eq_true'] at hout
  simp [hout]

theorem outside_store {deleted : Bool} : outside range (store deleted others l) = store deleted others (outside range l) := by
  rw [outside, store, List.filter_map, store, outside]
  congr 1
  refine List.filter_congr fun m _ => ?_
  by_cases h : others.has m.uid <;> simp [h]

/-- The EXPUNGE takes messages outside the range only without UIDPLUS. -/
theorem outside_expunged : outside range (client.expunged range box).messages =
    if client.plainExpunge ∧ client.goesOn .flag ∧ client.reply .expunge = .done then (outside range box.messages).filter fun m => !m.deleted
    else outside range box.messages := by
  have hflagged : outside range (client.flagged range box).messages = outside range box.messages := by
    rw [Client.flagged]
    split_ifs
    · exact outside_store_range
    · rfl
  rw [Client.expunged]
  by_cases h : client.goesOn .flag ∧ client.reply .expunge = .done
  · rw [if_pos h]
    change outside range ((client.flagged range box).messages.filter (client.left range)) = _
    rw [outside, List.filter_filter]
    by_cases hp : client.plainExpunge
    · rw [if_pos ⟨hp, h⟩, ← hflagged, outside, List.filter_filter]
      refine List.filter_congr fun m _ => ?_
      simp [Client.left, hp, Bool.and_comm]
    · rw [if_neg fun h' => hp h'.1, ← hflagged, outside]
      refine List.filter_congr fun m _ => ?_
      cases hhas : range.has m.uid <;> simp [Client.left, hp, hhas]
  · rw [if_neg h, if_neg fun h' => h h'.2, hflagged]

theorem map_kept_store {deleted : Bool} : (store deleted others l).map Message.kept = l.map Message.kept := by
  rw [store, List.map_map]
  refine List.map_congr_left fun m _ => ?_
  by_cases h : others.has m.uid <;> simp [h, Message.kept]

/-- An `undefined` to the STORE that was to protect them is read as done, and the EXPUNGE takes the others. -/
def TakesOthers (client : Client) (range : UidSet) (box : Mailbox) : Prop :=
  client.plainExpunge ∧ client.searched ∧ client.reply .unflagOthers = .undefined ∧ client.goesOn .flag ∧ client.reply .expunge = .done ∧
    ∃ m ∈ box.messages, m.deleted ∧ range.has m.uid = false

theorem mark_same {deleted : Bool} (h : m.deleted = deleted) : { m with deleted := deleted } = m := by
  subst h
  rfl

/-- Unmarked and marked again, the others are as they were. -/
theorem store_others {U : List Message} (hU : U = outside range box.messages ∨ U = store false (othersOf range box) (outside range box.messages)) :
    store true (othersOf range box) U = outside range box.messages := by
  have hmark : ∀ m ∈ outside range box.messages, (othersOf range box).has m.uid = m.deleted := by
    intro m hm
    obtain ⟨hmem, hout⟩ := List.mem_filter.mp hm
    rw [Bool.not_eq_true'] at hout
    exact Bool.eq_iff_iff.mpr ((has_othersOf hmem).trans (and_iff_left hout))
  rcases hU with rfl | rfl
  · refine (List.map_congr_left fun m hm => ?_).trans (List.map_id _)
    rw [hmark m hm]
    split_ifs with hd
    · exact mark_same hd
    · rfl
  · rw [store, store, List.map_map]
    refine (List.map_congr_left fun m hm => ?_).trans (List.map_id _)
    cases hd : m.deleted with
    | true => simp [hmark m hm, hd, mark_same hd]
    | false => simp [hmark m hm, hd]

theorem outside_unflagged : outside range (client.unflagged range box).messages =
    if othersOf range box ≠ [] ∧ client.reply .unflagOthers = .done then store false (othersOf range box) (outside range box.messages)
    else outside range box.messages := by
  rw [Client.unflagged]
  split_ifs
  · exact outside_store
  · rfl

/-- The EXPUNGE leaves the others where they are unmarked, or none is marked. -/
theorem filter_unflagged (h : othersOf range box = [] ∨ client.reply .unflagOthers = .done) :
    (outside range (client.unflagged range box).messages).filter (fun m => !m.deleted) = outside range (client.unflagged range box).messages := by
  rw [List.filter_eq_self, outside_unflagged]
  by_cases hnil : othersOf range box = []
  · intro m hm
    rw [if_neg fun h' => h'.1 hnil] at hm
    obtain ⟨hmem, hout⟩ := List.mem_filter.mp hm
    rw [Bool.not_eq_true'] at hout ⊢
    by_contra hd
    exact othersOf_ne_nil.mpr ⟨m, hmem, by simpa using hd, hout⟩ hnil
  · intro m hm
    rw [if_pos ⟨hnil, h.resolve_left hnil⟩] at hm
    obtain ⟨m', hm', rfl⟩ := mem_store.mp hm
    obtain ⟨hmem, hout⟩ := List.mem_filter.mp hm'
    rw [Bool.not_eq_true'] at hout
    split_ifs with hhas
    · rfl
    · rw [has_othersOf hmem] at hhas
      simpa [hout] using hhas

theorem protected_of_plain (hp : client.plainExpunge) : client.protected range box = (client.unflagged range box, othersOf range box) := if_pos hp

theorem protected_of_uidplus (hp : ¬client.plainExpunge) : client.protected range box = (box, []) := if_neg hp

/-- Where nothing takes the others they stay, and are marked as before once they are marked again. -/
theorem outside_after (hstarts : client.starts range box) (h : ¬TakesOthers client range box) :
    (outside range (client.after range box).messages).map Message.kept = (outside range box.messages).map Message.kept ∧
      (((client.protected range box).2 ≠ [] → client.reply .reflagOthers = .done) →
        outside range (client.after range box).messages = outside range box.messages) := by
  by_cases hp : client.plainExpunge
  · have hexpunged : outside range (client.expunged range (client.unflagged range box)).messages = outside range (client.unflagged range box).messages := by
      rw [outside_expunged]
      split_ifs with htaken
      · refine filter_unflagged ?_
        by_cases hnil : othersOf range box = []
        · exact .inl hnil
        · refine .inr (((hstarts hp).2.resolve_left hnil).resolve_right fun hundefined => h ?_)
          exact ⟨hp, (hstarts hp).1, hundefined, htaken.2.1, htaken.2.2, othersOf_ne_nil.mp hnil⟩
      · rfl
    have hU : outside range (client.unflagged range box).messages = outside range box.messages ∨
        outside range (client.unflagged range box).messages = store false (othersOf range box) (outside range box.messages) := by
      rw [outside_unflagged]
      split_ifs
      · exact .inr rfl
      · exact .inl rfl
    rw [Client.after, protected_of_plain hp]
    dsimp only
    by_cases hre : othersOf range box ≠ [] ∧ client.reply .reflagOthers = .done
    · rw [if_pos hre]
      have hsame : outside range ((client.expunged range (client.unflagged range box)).store true (othersOf range box)).messages =
          outside range box.messages := by
        change outside range (store _ _ _) = _
        rw [outside_store, hexpunged, store_others hU]
      rw [hsame]
      exact ⟨rfl, fun _ => rfl⟩
    · rw [if_neg hre, hexpunged]
      refine ⟨?_, fun hdone => ?_⟩
      · rcases hU with hU | hU
        · rw [hU]
        · rw [hU, map_kept_store]
      · have hnil : othersOf range box = [] := by
          by_contra hnil
          exact hre ⟨hnil, hdone hnil⟩
        rw [outside_unflagged, if_neg fun h' => h'.1 hnil]
  · rw [Client.after, protected_of_uidplus hp]
    have hexpunged : outside range (client.expunged range box).messages = outside range box.messages := by
      rw [outside_expunged, if_neg fun h' => hp h'.1]
    rw [if_neg fun h' => h'.1 rfl, hexpunged]
    exact ⟨rfl, fun _ => rfl⟩

theorem uids_after : (client.after range box).messages.map (·.uid) = (client.expunged range (client.protected range box).1).messages.map (·.uid) := by
  rw [Client.after]
  split_ifs
  · exact map_uid_store
  · rfl

/-- A message that is expunged, if the EXPUNGE runs and does not leave it. -/
theorem mem_expunged (h : client.goesOn .flag ∧ client.reply .expunge = .done) (hm : m ∈ (client.expunged range box).messages) :
    client.left range m = true ∧ ∃ m' ∈ box.messages, m'.uid = m.uid ∧
      m.deleted = if client.reply .flag = .done ∧ range.has m'.uid then true else m'.deleted := by
  rw [Client.expunged, if_pos h] at hm
  obtain ⟨hm, hleft⟩ := List.mem_filter.mp hm
  refine ⟨hleft, ?_⟩
  rw [Client.flagged] at hm
  split_ifs at hm with hflag
  · obtain ⟨m', hm', rfl⟩ := mem_store.mp hm
    refine ⟨m', hm', ?_, ?_⟩ <;> cases hhas : range.has m'.uid <;> simp [hflag]
  · exact ⟨m, hm, rfl, by simp [hflag]⟩

theorem taken_after (h : TakesOthers client range box) (hm : m ∈ box.messages) (hd : m.deleted) (hout : range.has m.uid = false) :
    m.uid ∉ (client.after range box).messages.map (·.uid) := by
  obtain ⟨hp, -, hunflag, hflag, hexpunge, -⟩ := h
  have hsame : client.unflagged range box = box := if_neg fun h' => by
    rw [hunflag] at h'
    cases h'.2
  rw [uids_after, protected_of_plain hp, hsame]
  intro hmem
  obtain ⟨m', hm', huid⟩ := List.mem_map.mp hmem
  obtain ⟨hleft, m'', hm'', huid', hd'⟩ := mem_expunged ⟨hflag, hexpunge⟩ hm'
  obtain rfl := eq_of_uid hm'' hm (huid'.trans huid)
  simp [hout, hd] at hd'
  simp [Client.left, hp, hd'] at hleft

theorem unmarked_after (h : TakesOthers client range box) (hm : m ∈ box.messages) (hd : m.deleted = false) (hout : range.has m.uid = false) :
    m.uid ∈ (client.after range box).messages.map (·.uid) := by
  obtain ⟨hp, -, hunflag, hflag, hexpunge, -⟩ := h
  have hsame : client.unflagged range box = box := if_neg fun h' => by
    rw [hunflag] at h'
    cases h'.2
  have hmem : m ∈ (client.flagged range box).messages := by
    rw [Client.flagged]
    split_ifs
    · exact mem_store.mpr ⟨m, hm, by simp [hout]⟩
    · exact hm
  rw [uids_after, protected_of_plain hp, hsame, Client.expunged, if_pos ⟨hflag, hexpunge⟩]
  exact List.mem_map_of_mem (List.mem_filter.mpr ⟨hmem, by simp [Client.left, hd]⟩)

/-- With UIDPLUS an `undefined` is read as done, and the answer is true while messages of the range stay. -/
def LeavesOwn (client : Client) (range : UidSet) (box : Mailbox) : Prop :=
  ¬client.plainExpunge ∧ client.goesOn .flag ∧
    (client.reply .expunge = .undefined ∧ (∃ m ∈ box.messages, range.has m.uid) ∨
      client.reply .expunge = .done ∧ client.reply .flag = .undefined ∧ ∃ m ∈ box.messages, range.has m.uid ∧ m.deleted = false)

theorem uids_flagged : (client.flagged range box).messages.map (·.uid) = box.messages.map (·.uid) := by
  rw [Client.flagged]
  split_ifs
  · exact map_uid_store
  · rfl

theorem none_left_iff {l l' : List Message} (h : l.map (·.uid) = l'.map (·.uid)) :
    (∀ m ∈ l, range.has m.uid = false) ↔ ∀ m ∈ l', range.has m.uid = false := by
  have hall (l : List Message) : (∀ m ∈ l, range.has m.uid = false) ↔ ∀ uid ∈ l.map (·.uid), range.has uid = false := by simp
  rw [hall, hall, h]

theorem none_left_uidplus (hp : ¬client.plainExpunge) (hflag : client.goesOn .flag) (hexpunge : client.goesOn .expunge) :
    (∀ m ∈ (client.expunged range box).messages, range.has m.uid = false) ↔ ¬LeavesOwn client range box := by
  constructor
  · rintro hnone ⟨-, -, ⟨hundefined, m, hm, hhas⟩ | ⟨hdone, hundefined, m, hm, hhas, hd⟩⟩
    · have hsame : client.expunged range box = client.flagged range box := if_neg fun h => by
        rw [hundefined] at h
        cases h.2
      rw [hsame, none_left_iff uids_flagged] at hnone
      rw [hnone m hm] at hhas
      cases hhas
    · have hsame : client.flagged range box = box := if_neg (by simp [hundefined])
      have hmem : m ∈ (client.expunged range box).messages := by
        rw [Client.expunged, if_pos ⟨hflag, hdone⟩, hsame]
        exact List.mem_filter.mpr ⟨hm, by simp [Client.left, hd]⟩
      rw [hnone m hmem] at hhas
      cases hhas
  · intro h m hm
    by_contra hhas
    rw [Bool.not_eq_false] at hhas
    rcases hexpunge with hdone | hundefined
    · obtain ⟨hleft, m', hm', huid, hd⟩ := mem_expunged ⟨hflag, hdone⟩ hm
      have hmd : m.deleted = false := by simpa [Client.left, hp, hhas] using hleft
      have hhas' : range.has m'.uid = true := huid ▸ hhas
      rw [hmd] at hd
      have hflag' : client.reply .flag ≠ .done := fun hf => by simp [hf, hhas'] at hd
      exact h ⟨hp, hflag, .inr ⟨hdone, hflag.resolve_left hflag', m', hm', hhas', by simpa [hflag'] using hd.symm⟩⟩
    · have hsame : client.expunged range box = client.flagged range box := if_neg fun h' => by
        rw [hundefined] at h'
        cases h'.2
      rw [hsame] at hm
      have hmem : m.uid ∈ box.messages.map (·.uid) := uids_flagged ▸ List.mem_map_of_mem hm
      obtain ⟨m', hm', huid⟩ := List.mem_map.mp hmem
      exact h ⟨hp, hflag, .inl ⟨hundefined, m', hm', huid ▸ hhas⟩⟩

/-- The answer is true only where no message of the range is left, unless it was not looked at what became of the commands. -/
theorem expungeUids_own : ((expungeUids client range s).1 = .ok true → ∀ m ∈ (expungeUids client range s).2.source.messages, range.has m.uid = false) ↔
    ¬LeavesOwn client range s.source := by
  by_cases hp : client.plainExpunge
  · refine iff_of_true (fun htrue => ?_) fun h => h.1 hp
    obtain ⟨hstarts, -, -, hleft⟩ := expungeUids_true.mp htrue
    rw [expungeUids_state hstarts, none_left_iff uids_after]
    exact (hleft hp).2
  · have hstarts : client.starts range s.source := fun h => absurd h hp
    have hprotected : (client.protected range s.source).1 = s.source := by rw [protected_of_uidplus hp]
    rw [expungeUids_state hstarts, none_left_iff uids_after, expungeUids_true, hprotected]
    by_cases hgoes : client.goesOn .flag ∧ client.goesOn .expunge
    · rw [← none_left_uidplus hp hgoes.1 hgoes.2]
      exact ⟨fun h => h ⟨hstarts, hgoes.1, hgoes.2, fun h' => absurd h' hp⟩, fun h _ => h⟩
    · refine iff_of_true (fun h => absurd ⟨h.2.1, h.2.2.1⟩ hgoes) fun h => hgoes ⟨h.2.1, ?_⟩
      rcases h.2.2 with h | h
      · exact .inr h.1
      · exact .inl h.1

/-! ## Moves -/

/-- The uids `moveUids` deletes after the copy. -/
def Client.toDelete (client : Client) (range : UidSet) (s : Server) : UidSet :=
  (client.uidMap range s).elim range fun map => map.map fun entry => (entry.1, entry.1)

def Server.copied (s : Server) (range : UidSet) : Server := { s with dest := s.dest.add (s.present range) }

def Client.deletes (client : Client) (range : UidSet) (s : Server) : Prop := client.reply .copy = .done ∧ client.uidMap range s ≠ some []

theorem moveUids_deletes (hmove : client.hasMove = false) (h : client.deletes range s) :
    (moveUids client range s).2 = (expungeUids client (client.toDelete range s) (s.copied range)).2 ∧ (moveUids client range s).1 ≠ .ok .no := by
  have hfirst : moveUids client range s = (if client.uidMap range s = some [] then pure .no else
      expungeUids client (client.toDelete range s) >>= fun gone =>
        if gone then pure (.value { uidMap := client.uidMap range s })
        else pure (.value { uidMap := client.uidMap range s, sourceRetained := true }) : Prog Server Unit (Answer Moved)) (s.copied range) := by
    rw [moveUids, if_neg (by simp [hmove])]
    exact Prog.bind_ok (send_done h.1)
  rw [hfirst, if_neg h.2]
  cases hrun : expungeUids client (client.toDelete range s) (s.copied range) with
  | mk result t =>
    cases result with
    | error e =>
      rw [Prog.bind_error hrun]
      exact ⟨rfl, by simp⟩
    | ok gone =>
      rw [Prog.bind_ok hrun]
      cases gone <;> exact ⟨rfl, by simp [pure]⟩

theorem moveUids_stays (hmove : client.hasMove = false) (h : ¬client.deletes range s) : (moveUids client range s).2.source = s.source := by
  rw [moveUids, if_neg (by simp [hmove]), Client.messageCopy]
  cases hcopy : client.reply .copy with
  | done =>
    rw [Prog.bind_ok (send_done hcopy)]
    have hnil : client.uidMap range s = some [] := by
      by_contra hne
      exact h ⟨hcopy, hne⟩
    simp [hnil, pure]
  | no =>
    rw [Prog.bind_ok (send_no hcopy)]
    rfl
  | undefined =>
    rw [Prog.bind_ok (send_undefined hcopy)]
    rfl
  | throws => rw [Prog.bind_error (send_throws hcopy)]

/-- A letter that the EXPUNGE after the copy took and that was not copied. -/
def LosesLetter (client : Client) (range : UidSet) (s : Server) : Prop :=
  client.deletes range s ∧ TakesOthers client (client.toDelete range s) s.source ∧
    ∃ m ∈ s.source.messages, m.deleted ∧ (client.toDelete range s).has m.uid = false ∧ ∀ m' ∈ (s.copied range).dest.messages, m'.letter ≠ m.letter

theorem has_toDelete (h : (client.toDelete range s).has m.uid) : range.has m.uid := by
  rw [Client.toDelete, Client.uidMap] at h
  split_ifs at h
  · rw [Option.elim_some, UidSet.has, List.any_map, List.any_eq_true] at h
    obtain ⟨entry, hentry, heq⟩ := h
    have huid : entry.1 = m.uid := by
      simp only [Function.comp_apply, Bool.and_eq_true, decide_eq_true_eq] at heq
      omega
    obtain ⟨m', hm', hm''⟩ := List.mem_map.mp (List.of_mem_zip hentry).1
    have hhas := (List.mem_filter.mp hm').2
    rwa [hm'', huid] at hhas
  · exact h

theorem letter_copied (hm : m ∈ s.source.messages) (h : range.has m.uid) : ∃ m' ∈ (s.copied range).dest.messages, m'.letter = m.letter := by
  have hmem : m ∈ s.present range := List.mem_filter.mpr ⟨hm, h⟩
  obtain ⟨i, hi, hget⟩ := List.getElem_of_mem hmem
  refine ⟨{ m with uid := s.dest.uidNext + i }, List.mem_append_right _ (List.mem_mapIdx.mpr ⟨i, hi, ?_⟩), rfl⟩
  rw [hget]

theorem expungeUids_dest : (expungeUids client range s).2.dest = s.dest := by
  by_cases h : client.starts range s.source
  · rw [expungeUids_state h]
  · rcases expungeUids_stops h with hrun | hrun <;> rw [hrun]

theorem TakesOthers.starts (h : TakesOthers client range box) : client.starts range box := fun _ => ⟨h.2.1, .inr (.inr h.2.2.1)⟩

/-- Every message outside the range is still there, but for its deleted mark. -/
theorem kept_expungeUids (h : ¬TakesOthers client range s.source) (hm : m ∈ s.source.messages) (hout : range.has m.uid = false) :
    ∃ m' ∈ (expungeUids client range s).2.source.messages, m'.kept = m.kept := by
  by_cases hstarts : client.starts range s.source
  · rw [expungeUids_state hstarts]
    have hmem : m.kept ∈ (outside range s.source.messages).map Message.kept :=
      List.mem_map_of_mem (List.mem_filter.mpr ⟨hm, by simpa using hout⟩)
    rw [← (outside_after hstarts h).1] at hmem
    obtain ⟨m', hm', heq⟩ := List.mem_map.mp hmem
    exact ⟨m', List.mem_of_mem_filter hm', heq⟩
  · rcases expungeUids_stops hstarts with hrun | hrun <;> rw [hrun] <;> exact ⟨m, hm, rfl⟩

theorem not_kept_expungeUids (h : TakesOthers client range s.source) (hm : m ∈ s.source.messages) (hd : m.deleted) (hout : range.has m.uid = false) :
    m.uid ∉ (expungeUids client range s).2.source.messages.map (·.uid) := by
  rw [expungeUids_state h.starts]
  exact taken_after h hm hd hout

/-- What a letter of the source has after the move: its place in the source, or a copy. -/
theorem copied_or_there (hmove : client.hasMove = false) (h : ¬LosesLetter client range s) (hm : m ∈ s.source.messages)
    (hgone : m.uid ∉ (moveUids client range s).2.source.messages.map (·.uid)) : ∃ m' ∈ (moveUids client range s).2.dest.messages, m'.letter = m.letter := by
  by_cases hdel : client.deletes range s
  · obtain ⟨hstate, -⟩ := moveUids_deletes hmove hdel
    rw [hstate] at hgone ⊢
    rw [expungeUids_dest]
    cases hhas : (client.toDelete range s).has m.uid with
    | true => exact letter_copied hm (has_toDelete hhas)
    | false =>
      by_cases htakes : TakesOthers client (client.toDelete range s) s.source
      · by_contra hnone
        rw [not_exists] at hnone
        cases hd : m.deleted with
        | true => exact h ⟨hdel, htakes, m, hm, hd, hhas, fun m' hm' heq => hnone m' ⟨hm', heq⟩⟩
        | false =>
          rw [expungeUids_state (s := s.copied range) htakes.starts] at hgone
          exact hgone (unmarked_after htakes hm hd hhas)
      · obtain ⟨m', hm', heq⟩ := kept_expungeUids (s := s.copied range) htakes hm hhas
        exact absurd (List.mem_map.mpr ⟨m', hm', congrArg Prod.fst heq⟩) hgone
  · rw [moveUids_stays hmove hdel] at hgone
    exact absurd (List.mem_map_of_mem hm) hgone

/-- An expunge leaves every other message and its mark, and is true only where the range is gone, exactly unless an `undefined` is read as done;
an emulated move then loses a letter exactly where the EXPUNGE takes one that was not copied. Its `false` says that the source is as it was. -/
theorem emulated_moves (client : Client) (range : UidSet) (s : Server) :
    ((∀ m ∈ s.source.messages, range.has m.uid = false → ∃ m' ∈ (expungeUids client range s).2.source.messages, m'.kept = m.kept) ↔
      ¬TakesOthers client range s.source) ∧
    (((client.protected range s.source).2 ≠ [] → client.reply .reflagOthers = .done) →
      (outside range (expungeUids client range s).2.source.messages = outside range s.source.messages ↔ ¬TakesOthers client range s.source)) ∧
    (((expungeUids client range s).1 = .ok true → ∀ m ∈ (expungeUids client range s).2.source.messages, range.has m.uid = false) ↔
      ¬LeavesOwn client range s.source) ∧
    (client.hasMove = false →
      ((∀ m ∈ s.source.messages, m.uid ∉ (moveUids client range s).2.source.messages.map (·.uid) →
        ∃ m' ∈ (moveUids client range s).2.dest.messages, m'.letter = m.letter) ↔ ¬LosesLetter client range s) ∧
      ((moveUids client range s).1 = .ok .no → (moveUids client range s).2.source = s.source)) := by
  refine ⟨⟨fun h htakes => ?_, fun h m hm hout => kept_expungeUids h hm hout⟩, fun hreflag => ⟨fun h htakes => ?_, fun h => ?_⟩, expungeUids_own,
    fun hmove => ⟨⟨fun h hloses => ?_, fun h m hm hgone => copied_or_there hmove h hm hgone⟩, fun hno => ?_⟩⟩
  · obtain ⟨-, -, -, -, -, m, hm, hd, hout⟩ := id htakes
    obtain ⟨m', hm', heq⟩ := h m hm hout
    exact not_kept_expungeUids htakes hm hd hout (List.mem_map.mpr ⟨m', hm', congrArg Prod.fst heq⟩)
  · obtain ⟨-, -, -, -, -, m, hm, hd, hout⟩ := id htakes
    have hmem : m ∈ outside range s.source.messages := List.mem_filter.mpr ⟨hm, by simpa using hout⟩
    rw [← h] at hmem
    exact not_kept_expungeUids htakes hm hd hout (List.mem_map_of_mem (List.mem_of_mem_filter hmem))
  · by_cases hstarts : client.starts range s.source
    · rw [expungeUids_state hstarts]
      exact (outside_after hstarts h).2 hreflag
    · rcases expungeUids_stops hstarts with hrun | hrun <;> rw [hrun]
  · obtain ⟨hdel, htakes, m, hm, hd, hout, hnone⟩ := hloses
    obtain ⟨hstate, -⟩ := moveUids_deletes hmove hdel
    obtain ⟨m', hm', heq⟩ := h m hm (by
      rw [hstate]
      exact not_kept_expungeUids (s := s.copied range) htakes hm hd hout)
    rw [hstate, expungeUids_dest] at hm'
    exact hnone m' hm' heq
  · by_cases hdel : client.deletes range s
    · exact absurd hno (moveUids_deletes hmove hdel).2
    · exact moveUids_stays hmove hdel

/-- Another client marked uid 2; the STORE that was to unmark it found no mailbox selected. -/
def unselectedClient : Client where
  capabilities := []
  enabled := []
  names := false
  reply := fun command => if command = .unflagOthers then .undefined else .done

def markedServer : Server where
  source :=
    { messages := [{ uid := 1, letter := 10, deleted := false }, { uid := 2, letter := 20, deleted := true }]
      uidNext := 3
      nodup := by decide
      below := by decide }
  dest := { messages := [], uidNext := 1, nodup := by decide, below := by decide }

theorem not_emulated_moves : (expungeUids unselectedClient [(1, 1)] markedServer).1 = .ok true ∧
    (expungeUids unselectedClient [(1, 1)] markedServer).2.source.messages = [] ∧
    (moveUids unselectedClient [(1, 1)] markedServer).2.source.messages = [] ∧
    (moveUids unselectedClient [(1, 1)] markedServer).2.dest.messages = [{ uid := 1, letter := 10, deleted := false }] := by
  refine ⟨by decide +kernel, by decide +kernel, by decide +kernel, by decide +kernel⟩

end MailExpert.ImapMoves
