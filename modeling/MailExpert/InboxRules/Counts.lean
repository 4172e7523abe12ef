import MailExpert.InboxRules.Barrier

/-!
# Folder counters after the rules

When the adjustments that a batch of rules makes are those its letters call for, and its flag stores
reach the letters they are about.
-/

namespace MailExpert.InboxRules

/-- The letters a folder counts of a letter, 0 or 1. -/
def Actual.inFolder (path : String) (a : Actual) : Int :=
  if a.folder = path ∧ a.expunged = false then 1 else 0

def Actual.unreadIn (path : String) (a : Actual) : Int :=
  if a.folder = path ∧ a.expunged = false ∧ a.read = false then 1 else 0

namespace State

variable (path : String) (s : State)

def total : Int := ((s.adjustments.filter (·.path = path)).map (·.total)).sum

def unread : Int := ((s.adjustments.filter (·.path = path)).map (·.unread)).sum

/-- How far the adjustments are ahead of where the letter is. -/
def totalGap : Int := s.total path - s.actual.inFolder path

def unreadGap : Int := s.unread path - s.actual.unreadIn path

@[simp] theorem total_update (f : Row → Row) : (s.update f).total path = s.total path := rfl
@[simp] theorem unread_update (f : Row → Row) : (s.update f).unread path = s.unread path := rfl

@[simp] theorem total_setFlag (uid : Nat) (folder : String) (flag : Flag) :
    (s.setFlag uid folder flag).total path = s.total path := rfl

@[simp] theorem unread_setFlag (uid : Nat) (folder : String) (flag : Flag) :
    (s.setFlag uid folder flag).unread path = s.unread path := rfl

variable (folder : String) (dt du : Int)

@[simp] theorem total_adjustFolderCounts : (s.adjustFolderCounts folder dt du).total path =
    s.total path + if folder = path then dt else 0 := by
  unfold adjustFolderCounts
  split
  · next hzero => simp [hzero.1]
  · by_cases hpath : folder = path <;> simp [total, List.filter_append, hpath]

@[simp] theorem unread_adjustFolderCounts : (s.adjustFolderCounts folder dt du).unread path =
    s.unread path + if folder = path then du else 0 := by
  unfold adjustFolderCounts
  split
  · next hzero => simp [hzero.2]
  · by_cases hpath : folder = path <;> simp [unread, List.filter_append, hpath]

end State

variable (world : World)

/-- All Mail is not counted. -/
def synced (path : String) : Bool := !isAllMailFolder world.folders path

/-- What a destination action does to the program's idea of where a letter is. -/
inductive Fate
  | follows | lost | expunged
deriving DecidableEq

/-- A delete does not update it, and a move without the new uid keeps the old one. -/
def fate (msg : Message) (action : Action) : Fate :=
  if action.type = .delete then
    if deleteStrategy world msg = .expunge then .expunged else .lost
  else if world.reportsUid msg.id ∨ world.assignedUid msg.id = msg.uid then .follows
  else .lost

/-- No action runs on the letter after one that loses it. -/
def leftAlone (msg : Message) : List Action → Bool
  | [] => true
  | action :: rest =>
    if action.isDest then fate world msg action ≠ .lost || rest.isEmpty else leftAlone msg rest

/-- The letter is marked as read for the first time after it was expunged. -/
def readLate (msg : Message) : (unread : Bool) → List Action → Bool
  | _, [] => false
  | unread, action :: rest =>
    if action.isDest then
      fate world msg action = .expunged && unread && rest.any (·.type = .mark_read)
    else readLate msg (unread && action.type ≠ .mark_read) rest

/-! ## Steps -/

/-- What a flag action does: the flag is stored where the program takes the letter to be, and a
letter marked as read is counted there. -/
structure Flagged (marks : Bool) (s s' : State) : Prop where
  msg : s'.msg.id = s.msg.id ∧ s'.msg.folder = s.msg.folder ∧ s'.msg.uid = s.msg.uid
  msg_read : s'.msg.read = (s.msg.read || marks)
  actual : s'.actual = { s.actual with read := s.actual.read || marks }
  stores : ∃ flag, s'.stores = s.stores ++
    [{ flag, folder := s.msg.folder, uid := s.msg.uid, actual := s.actual }]
  total : ∀ path, s'.total path = s.total path
  unread : ∀ path, s'.unread path =
    s.unread path - if marks = true ∧ s.msg.read = false ∧ s.msg.folder = path then 1 else 0

/-- What a destination action does that takes a letter from where the program takes it to be. -/
structure Taken (world : World) (action : Action) (s s' : State) : Prop where
  read : s'.msg.read = s.msg.read ∧ s'.actual.read = s.actual.read
  total : ∀ path, synced world path = true → s'.totalGap path = s.totalGap path
  unread : ∀ path, synced world path = true → s'.unreadGap path = s.unreadGap path
  addressed : (∀ store ∈ s'.stores, store.Addressed) ↔ ∀ store ∈ s.stores, store.Addressed
  fate : match fate world s.msg action with
    | .follows => s'.Placed ∧ s'.actual.expunged = false
    | .lost => ¬s'.Placed
    | .expunged => s'.Placed ∧ s'.actual.expunged = true ∧ s'.msg.folder = s.msg.folder

variable {world} {action : Action} {s s' : State} {path : String}

theorem perform_mark_read (h : action.type = .mark_read) :
    Flagged true s (perform world s action) := by
  let stored := (s.update fun row => { row with is_read := true }).setFlag s.msg.uid s.msg.folder .seen
  simp only [perform, applyAction, h, Option.map_some, Option.getD_some]
  cases hread : s.msg.read with
  | true =>
    simp only [State.wasUnread, hread, Bool.not_true, Bool.false_eq_true, if_false]
    exact {
      msg := ⟨rfl, rfl, rfl⟩
      msg_read := by simp [Message.read]
      actual := by simp [State.actual_setFlag]
      stores := ⟨.seen, rfl⟩
      total := fun _ => rfl
      unread := fun path => by
        change s.unread path = _
        simp [hread] }
  | false =>
    simp only [State.wasUnread, hread, Bool.not_false, if_true]
    exact {
      msg := ⟨rfl, rfl, rfl⟩
      msg_read := by simp [Message.read]
      actual := by simp [State.actual_setFlag]
      stores := ⟨.seen, by simp⟩
      total := fun path => by
        change (stored.adjustFolderCounts s.msg.folder 0 (-1)).total path = _
        simp [stored]
      unread := fun path => by
        change (stored.adjustFolderCounts s.msg.folder 0 (-1)).unread path = _
        simp only [stored, State.unread_adjustFolderCounts, State.unread_setFlag,
          State.unread_update, hread, true_and]
        split <;> omega }

theorem perform_star (h : action.type = .star) : Flagged false s (perform world s action) := by
  rw [perform, applyAction_star world s h]
  exact {
    msg := ⟨rfl, rfl, rfl⟩
    msg_read := (Bool.or_false _).symm
    actual := by simp [State.actual_setFlag]
    stores := ⟨.flagged, rfl⟩
    total := fun _ => rfl
    unread := fun path => by simp }

/-- The counts of a letter that left `source`, and came to `destination` if that is counted. -/
def State.counted (source destination : String) (counts : Bool) (s : State) : State :=
  let left := s.adjustFolderCounts source (-1) (-s.unreadCount)
  if counts then left.adjustFolderCounts destination 1 s.unreadCount else left

section
variable {source destination : String} {counts : Bool} {moved : State}

theorem State.counted_frame : (moved.counted source destination counts).msg = moved.msg ∧
    (moved.counted source destination counts).actual = moved.actual ∧
    (moved.counted source destination counts).stores = moved.stores := by
  unfold State.counted
  cases counts <;> simp

theorem State.total_counted : (moved.counted source destination counts).total path =
    moved.total path + (if source = path then -1 else 0) +
      if counts ∧ destination = path then 1 else 0 := by
  unfold State.counted
  cases counts <;> simp

theorem State.unread_counted : (moved.counted source destination counts).unread path =
    moved.unread path + (if source = path then -moved.unreadCount else 0) +
      if counts ∧ destination = path then moved.unreadCount else 0 := by
  unfold State.counted
  cases counts <;> simp

/-- A letter moved from where the program takes it to be, with its row changed or gone. -/
structure Moved (world : World) (destination : String) (s moved : State) : Prop where
  msg : moved.msg = s.msg
  actual : moved.actual = (s.moved world destination).actual
  stores : moved.stores = s.stores
  adjustments : moved.adjustments = s.adjustments

/-- A move takes a letter out of its folder and into another, counted as what it is. -/
theorem Moved.taken (h : Moved world destination s moved) (hplaced : s.Placed)
    (hexpunged : s.actual.expunged = false) (hread : s.actual.read = s.msg.read)
    (hcounts : synced world destination = true → counts = true) {msg : Message}
    (hmsg : msg.read = s.msg.read)
    (hfate : match fate world s.msg action with
      | .follows => msg.folder = destination ∧ msg.uid = world.assignedUid s.msg.id
      | .lost => destination ≠ msg.folder ∨ world.assignedUid s.msg.id ≠ msg.uid
      | .expunged => False) :
    Taken world action s { moved.counted s.msg.folder destination counts with msg } := by
  have hactual : (moved.counted s.msg.folder destination counts).actual = moved.actual :=
    State.counted_frame.2.1
  have hstores : (moved.counted s.msg.folder destination counts).stores = moved.stores :=
    State.counted_frame.2.2
  have hall {path : String} (hpath : synced world path = true) :
      (counts = true ∧ destination = path) = (destination = path) :=
    propext ⟨And.right, fun hdest => ⟨hcounts (hdest ▸ hpath), hdest⟩⟩
  refine ⟨?_, fun path hpath => ?_, fun path hpath => ?_, ?_, ?_⟩
  · simp only [hactual, h.actual]
    exact ⟨hmsg, rfl⟩
  · change (moved.counted s.msg.folder destination counts).totalGap path = s.totalGap path
    have htotal : moved.total path = s.total path := by simp only [State.total, h.adjustments]
    simp only [State.totalGap, State.total_counted, htotal, hall hpath, hactual, h.actual,
      State.moved, Actual.inFolder, hexpunged, hplaced.1]
    by_cases hsource : s.msg.folder = path <;> by_cases hdest : destination = path <;>
      simp [hsource, hdest, Int.sub_eq_add_neg]
  · change (moved.counted s.msg.folder destination counts).unreadGap path = s.unreadGap path
    have hunread : moved.unread path = s.unread path := by simp only [State.unread, h.adjustments]
    simp only [State.unreadGap, State.unread_counted, hunread, hall hpath, hactual, h.actual,
      State.moved, Actual.unreadIn, hexpunged, hplaced.1, hread, h.msg, State.unreadCount,
      State.wasUnread]
    rcases Bool.eq_false_or_eq_true s.msg.read with hr | hr
    · simp [hr]
    · by_cases hsource : s.msg.folder = path <;> by_cases hdest : destination = path <;>
        simp [hsource, hdest, hr, Int.sub_eq_add_neg]
  · simp only [hstores, h.stores]
  · have hplace : (moved.counted s.msg.folder destination counts).actual.folder = destination ∧
        (moved.counted s.msg.folder destination counts).actual.uid = world.assignedUid s.msg.id ∧
        (moved.counted s.msg.folder destination counts).actual.expunged = false := by
      rw [hactual, h.actual]
      exact ⟨rfl, rfl, hexpunged⟩
    simp only [State.Placed, hplace]
    split
    · next hfollows =>
      rw [hfollows] at hfate
      exact ⟨⟨hfate.1.symm, hfate.2.symm⟩, trivial⟩
    · next hlost =>
      rw [hlost] at hfate
      intro hsame
      rcases hfate with hne | hne
      · exact hne hsame.1
      · exact hne hsame.2
    · next hexpunge =>
      rw [hexpunge] at hfate
      exact hfate.elim

end

/-- A move or an archive, where the program takes the new uid if it is told and the old one if not. -/
theorem fate_of_newUid {destination : String} (htype : action.type ≠ .delete) :
    match fate world s.msg action with
    | .follows => destination = destination ∧
      (newUid world s.msg).getD s.msg.uid = world.assignedUid s.msg.id
    | .lost => destination ≠ destination ∨
      world.assignedUid s.msg.id ≠ (newUid world s.msg).getD s.msg.uid
    | .expunged => False := by
  rw [fate, if_neg htype, newUid]
  by_cases htold : world.reportsUid s.msg.id = true
  · simp [htold]
  · by_cases hsame : world.assignedUid s.msg.id = s.msg.uid
    · simp [htold, hsame]
    · simp [htold, hsame]

theorem perform_move (hplaced : s.Placed) (hexpunged : s.actual.expunged = false)
    (hread : s.actual.read = s.msg.read) (htype : action.type = .move) (hvalue : action.value ≠ "") :
    Taken world action s (perform world s action) := by
  let moved := (s.moved world action.value).update (rehome action.value (newUid world s.msg))
  have hmoved : Moved world action.value s moved := ⟨rfl, rfl, rfl, rfl⟩
  have hperform : perform world s action = { moved.counted s.msg.folder action.value true with
      msg := { s.msg with folder := action.value, uid := (newUid world s.msg).getD s.msg.uid } } := by
    simp only [perform, applyAction, htype, if_neg hvalue, bulkMoveMessages_of_placed hplaced,
      Option.bind_eq_bind, Option.bind_some, Option.pure_def, Option.map_some, Option.getD_some,
      State.msg_adjustFolderCounts, State.msg_update]
    rfl
  rw [hperform]
  exact hmoved.taken hplaced hexpunged hread (fun _ => rfl) rfl (fate_of_newUid (by simp [htype]))

theorem perform_archive {folder : String} (hplaced : s.Placed) (hexpunged : s.actual.expunged = false)
    (hread : s.actual.read = s.msg.read) (htype : action.type = .archive)
    (hfolder : resolvedArchive world = some folder) :
    Taken world action s (perform world s action) := by
  let moved := if archiveIsAllMail world then { s.moved world folder with row := none }
    else (s.moved world folder).update (rehome folder (newUid world s.msg))
  have hmoved : Moved world folder s moved := by
    simp only [moved]
    split <;> exact ⟨rfl, rfl, rfl, rfl⟩
  have hperform : perform world s action =
      { moved.counted s.msg.folder folder (!archiveIsAllMail world) with
        msg := { s.msg with folder, uid := (newUid world s.msg).getD s.msg.uid } } := by
    simp only [perform, applyAction, htype, hfolder, bulkMoveMessages_of_placed hplaced,
      Option.bind_eq_bind, Option.bind_some, Option.pure_def, Option.map_some, Option.getD_some]
    simp only [moved, State.counted]
    cases archiveIsAllMail world <;>
      simp [State.moved]
  rw [hperform]
  refine hmoved.taken hplaced hexpunged hread (fun hsynced => ?_) rfl
    (fate_of_newUid (by simp [htype]))
  simpa [archiveIsAllMail, hfolder, synced] using hsynced

/-- An expunge takes a letter out of its folder, and leaves it there for flag stores. -/
theorem perform_expunge (hplaced : s.Placed) (hexpunged : s.actual.expunged = false)
    (hread : s.actual.read = s.msg.read) (htype : action.type = .delete)
    (hstrategy : deleteStrategy world s.msg = .expunge) :
    Taken world action s (perform world s action) := by
  obtain ⟨flagged, hflagged⟩ : ∃ flagged, flagged =
      (s.setFlag s.msg.uid s.msg.folder .deleted).update fun row => { row with is_deleted := true } :=
    ⟨_, rfl⟩
  have hperform : perform world s action =
      flagged.adjustFolderCounts s.msg.folder (-1) (-flagged.unreadCount) := by
    simp only [perform, applyAction, htype, hstrategy, Option.map_some, Option.getD_some, hflagged]
    rfl
  have hmsg : flagged.msg = s.msg := by rw [hflagged]; rfl
  have hactual : flagged.actual = { s.actual with expunged := true } := by
    simp [hflagged, State.setFlag, hplaced.1, hplaced.2]
  have hstores : flagged.stores = s.stores ++
      [{ flag := .deleted, folder := s.msg.folder, uid := s.msg.uid, actual := s.actual }] := by
    rw [hflagged]
    rfl
  have htotal (path : String) : flagged.total path = s.total path := by rw [hflagged]; rfl
  have hunread (path : String) : flagged.unread path = s.unread path := by rw [hflagged]; rfl
  rw [hperform]
  refine ⟨?_, fun path _ => ?_, fun path _ => ?_, ?_, ?_⟩
  · simp [hactual, hmsg]
  · simp only [State.totalGap, State.total_adjustFolderCounts, htotal,
      State.actual_adjustFolderCounts, hactual, Actual.inFolder, hplaced.1, hexpunged]
    by_cases hsource : s.msg.folder = path <;> simp [hsource, Int.sub_eq_add_neg]
  · simp only [State.unreadGap, State.unread_adjustFolderCounts, hunread, hmsg,
      State.actual_adjustFolderCounts, hactual, Actual.unreadIn, hplaced.1, hexpunged, hread,
      State.unreadCount, State.wasUnread]
    rcases Bool.eq_false_or_eq_true s.msg.read with hr | hr
    · simp [hr]
    · by_cases hsource : s.msg.folder = path <;> simp [hsource, hr, Int.sub_eq_add_neg]
  · simp only [State.stores_adjustFolderCounts, hstores, List.forall_mem_append,
      List.forall_mem_singleton]
    exact ⟨And.left, fun h => ⟨h, hplaced.1.symm, hplaced.2.symm⟩⟩
  · rw [fate, if_pos htype, if_pos hstrategy]
    simp [State.Placed, hactual, hmsg, hplaced.1, hplaced.2]

theorem perform_delete (hplaced : s.Placed) (hexpunged : s.actual.expunged = false)
    (hread : s.actual.read = s.msg.read) (htype : action.type = .delete)
    (hstrategy : deleteStrategy world s.msg ≠ .no_trash) :
    Taken world action s (perform world s action) := by
  have hfate : fate world s.msg action =
      if deleteStrategy world s.msg = .expunge then .expunged else .lost := by
    rw [fate, if_pos htype]
  cases hdelete : deleteStrategy world s.msg with
  | no_trash => exact absurd hdelete hstrategy
  | move destination =>
    let moved := (s.moved world destination).update (rehome destination (newUid world s.msg))
    have hmoved : Moved world destination s moved := ⟨rfl, rfl, rfl, rfl⟩
    have hperform : perform world s action = { moved.counted s.msg.folder destination true with
        msg := s.msg } := by
      simp only [perform, applyAction, htype, hdelete, bulkMoveMessages_of_placed hplaced,
        Option.bind_eq_bind, Option.bind_some, Option.pure_def, Option.map_some, Option.getD_some,
        State.msg_update]
      have hmsg : (moved.counted s.msg.folder destination true).msg = s.msg := State.counted_frame.1
      rw [← hmsg]
      rfl
    rw [hperform]
    refine hmoved.taken hplaced hexpunged hread (fun _ => rfl) rfl ?_
    rw [hfate, hdelete]
    exact .inl (ne_of_getDeleteStrategy hdelete)
  | expunge => exact perform_expunge hplaced hexpunged hread htype hdelete

theorem perform_dest (hplaced : s.Placed) (hexpunged : s.actual.expunged = false)
    (hread : s.actual.read = s.msg.read) (h : relocates world s.msg action = true) :
    Taken world action s (perform world s action) := by
  unfold relocates at h
  split at h
  · next htype =>
    exact perform_move hplaced hexpunged hread htype (of_decide_eq_true h)
  · next htype =>
    obtain ⟨folder, hfolder⟩ := Option.isSome_iff_exists.mp h
    exact perform_archive hplaced hexpunged hread htype hfolder
  · next htype =>
    exact perform_delete hplaced hexpunged hread htype (of_decide_eq_true h)
  · cases h

/-! ## Runs -/

/-- The counts after the actions `ran` on a letter, against those before. -/
structure Settles (world : World) (letter : Message) (ran : List Action) (s s' : State) : Prop where
  total : ∀ path, synced world path = true → s'.totalGap path = s.totalGap path
  addressed : (∀ store ∈ s'.stores, store.Addressed) ↔
    (∀ store ∈ s.stores, store.Addressed) ∧ leftAlone world letter ran = true
  unread : leftAlone world letter ran = true → ∀ path, synced world path = true →
    s'.unreadGap path = s.unreadGap path -
      if readLate world letter (!s.msg.read) ran = true ∧ letter.folder = path then 1 else 0

/-- `mark_read` and `star`. -/
def Action.isFlag (action : Action) : Prop := action.type = .mark_read ∨ action.type = .star

theorem perform_flag (world : World) (s : State) (h : action.isFlag) :
    Flagged (action.type = .mark_read) s (perform world s action) := by
  rcases h with h | h
  · simpa [h] using perform_mark_read h
  · simpa [h] using perform_star h

variable {marks : Bool}

theorem Flagged.totalGap (h : Flagged marks s s') (path : String) :
    s'.totalGap path = s.totalGap path := by
  simp only [State.totalGap, h.total, h.actual, Actual.inFolder]

theorem Flagged.placed (h : Flagged marks s s') : s'.Placed ↔ s.Placed := by
  simp only [State.Placed, h.actual, h.msg]

theorem Flagged.addressed (h : Flagged marks s s') : (∀ store ∈ s'.stores, store.Addressed) ↔
    (∀ store ∈ s.stores, store.Addressed) ∧ s.Placed := by
  obtain ⟨flag, hstores⟩ := h.stores
  rw [hstores, List.forall_mem_append, List.forall_mem_singleton]
  exact and_congr_right fun _ => ⟨fun h => ⟨h.1.symm, h.2.symm⟩, fun h => ⟨h.1.symm, h.2.symm⟩⟩

/-- An expunged letter that is marked as read is counted a second time. -/
theorem Flagged.unreadGap (h : Flagged marks s s') (hplaced : s.Placed)
    (hread : s.actual.read = s.msg.read) (path : String) : s'.unreadGap path = s.unreadGap path -
      if s.actual.expunged = true ∧ s.msg.read = false ∧ marks = true ∧ s.msg.folder = path then 1
      else 0 := by
  simp only [State.unreadGap, h.unread, h.actual, Actual.unreadIn, hread, hplaced.1]
  generalize s.msg.read = read, s.actual.expunged = expunged
  by_cases hpath : s.msg.folder = path
  · cases read <;> cases expunged <;> cases marks <;> simp [hpath, Int.sub_eq_add_neg]
  · simp [hpath]

/-- Flag actions on a letter that is where the program takes it to be. -/
theorem foldl_flags {rest : List Action} (hflags : ∀ action ∈ rest, action.isFlag)
    (hplaced : s.Placed) (hread : s.actual.read = s.msg.read) :
    (∀ path, (rest.foldl (perform world) s).totalGap path = s.totalGap path) ∧
    ((∀ store ∈ (rest.foldl (perform world) s).stores, store.Addressed) ↔
      ∀ store ∈ s.stores, store.Addressed) ∧
    ∀ path, (rest.foldl (perform world) s).unreadGap path = s.unreadGap path -
      if s.actual.expunged = true ∧ s.msg.read = false ∧ rest.any (·.type = .mark_read) = true ∧
        s.msg.folder = path then 1 else 0 := by
  induction rest generalizing s with
  | nil => simp
  | cons action rest ih =>
    have hflag := perform_flag world s (hflags action (List.mem_cons_self ..))
    have hread' : (perform world s action).actual.read = (perform world s action).msg.read := by
      rw [hflag.actual, hflag.msg_read, hread]
    obtain ⟨htotal, haddressed, hunread⟩ := ih
      (fun a ha => hflags a (List.mem_cons_of_mem _ ha)) (hflag.placed.mpr hplaced) hread'
    rw [List.foldl_cons]
    refine ⟨fun path => (htotal path).trans (hflag.totalGap path), ?_, fun path => ?_⟩
    · rw [haddressed, hflag.addressed]
      exact and_iff_left hplaced
    · rw [hunread, hflag.unreadGap hplaced hread, hflag.msg_read, hflag.actual, hflag.msg.2.1,
        List.any_cons]
      by_cases hexpunged : s.actual.expunged = true
      · by_cases hunread : s.msg.read = false
        · by_cases hpath : s.msg.folder = path <;> by_cases hmark : action.type = .mark_read <;>
            simp [hexpunged, hunread, hpath, hmark]
        · simp [hunread]
      · simp [hexpunged]

/-- Flag actions on a lost letter miss it. -/
theorem foldl_flags_of_lost {rest : List Action} (hflags : ∀ action ∈ rest, action.isFlag)
    (hlost : ¬s.Placed) :
    (∀ path, (rest.foldl (perform world) s).totalGap path = s.totalGap path) ∧
    ((∀ store ∈ (rest.foldl (perform world) s).stores, store.Addressed) ↔
      (∀ store ∈ s.stores, store.Addressed) ∧ rest = []) := by
  induction rest generalizing s with
  | nil => simp
  | cons action rest ih =>
    have hflag := perform_flag world s (hflags action (List.mem_cons_self ..))
    obtain ⟨htotal, haddressed⟩ := ih (fun a ha => hflags a (List.mem_cons_of_mem _ ha))
      (fun hplaced => hlost (hflag.placed.mp hplaced))
    rw [List.foldl_cons]
    refine ⟨fun path => (htotal path).trans (hflag.totalGap path), ?_⟩
    rw [haddressed, hflag.addressed]
    simp [hlost]

/-- A letter that no destination action took yet. -/
structure Home (letter : Message) (s : State) : Prop where
  placed : s.Placed
  expunged : s.actual.expunged = false
  read : s.actual.read = s.msg.read
  msg : s.msg.id = letter.id ∧ s.msg.folder = letter.folder ∧ s.msg.uid = letter.uid

theorem fate_congr {msg letter : Message}
    (h : msg.id = letter.id ∧ msg.folder = letter.folder ∧ msg.uid = letter.uid) :
    fate world msg action = fate world letter action := by
  unfold fate deleteStrategy
  rw [h.1, h.2.1, h.2.2]

theorem Home.flag {letter : Message} (h : Home letter s) (hflag : Flagged marks s s') :
    Home letter s' where
  placed := hflag.placed.mpr h.placed
  expunged := by rw [hflag.actual]; exact h.expunged
  read := by rw [hflag.actual, hflag.msg_read, h.read]
  msg := by rw [hflag.msg.1, hflag.msg.2.1, hflag.msg.2.2]; exact h.msg

/-- The destination action, and the flag actions after it. -/
theorem Home.dest {letter : Message} (h : Home letter s) {rest : List Action}
    (hdest : action.isDest = true) (hrelocates : relocates world letter action = true)
    (hrest : ∀ a ∈ rest, a.isFlag) :
    Settles world letter (action :: rest) s ((action :: rest).foldl (perform world) s) := by
  have htaken := perform_dest h.placed h.expunged h.read
    ((relocates_congr h.msg.2.1).trans hrelocates)
  have hread : (perform world s action).actual.read = (perform world s action).msg.read := by
    rw [htaken.read.1, htaken.read.2, h.read]
  have hfate := htaken.fate
  rw [fate_congr h.msg] at hfate
  rw [List.foldl_cons]
  cases hcase : fate world letter action with
  | follows =>
    rw [hcase] at hfate
    obtain ⟨htotal, haddressed, hunread⟩ := foldl_flags hrest hfate.1 hread
    exact {
      total := fun path hpath => (htotal path).trans (htaken.total path hpath)
      addressed := by
        rw [haddressed, htaken.addressed]
        simp [leftAlone, hdest, hcase]
      unread := fun _ path hpath => by
        rw [hunread, htaken.unread path hpath]
        simp [readLate, hdest, hcase, hfate.2] }
  | lost =>
    rw [hcase] at hfate
    obtain ⟨htotal, haddressed⟩ := foldl_flags_of_lost hrest hfate
    exact {
      total := fun path hpath => (htotal path).trans (htaken.total path hpath)
      addressed := by
        rw [haddressed, htaken.addressed]
        simp [leftAlone, hdest, hcase]
      unread := fun halone path hpath => by
        have hnil : rest = [] := by simpa [leftAlone, hdest, hcase] using halone
        subst hnil
        simp [readLate, htaken.unread path hpath] }
  | expunged =>
    rw [hcase] at hfate
    obtain ⟨htotal, haddressed, hunread⟩ := foldl_flags hrest hfate.1 hread
    exact {
      total := fun path hpath => (htotal path).trans (htaken.total path hpath)
      addressed := by
        rw [haddressed, htaken.addressed]
        simp [leftAlone, hdest, hcase]
      unread := fun _ path hpath => by
        rw [hunread, htaken.unread path hpath, hfate.2.1, hfate.2.2, htaken.read.1, h.msg.2.1]
        simp [readLate, hdest, hcase, and_assoc] }

/-- The actions of a plan, from a letter that none of them took yet. -/
theorem Home.settles {letter : Message} {ran : List Action} (h : Home letter s)
    (honce : ran.Pairwise fun a b => a.isDest = true → b.isDest = false)
    (heffect : ∀ action ∈ ran, action.isFlag ∨
      action.isDest = true ∧ relocates world letter action = true) :
    Settles world letter ran s (ran.foldl (perform world) s) := by
  induction ran generalizing s with
  | nil => exact ⟨fun _ _ => rfl, by simp [leftAlone], by simp [readLate]⟩
  | cons action rest ih =>
    obtain ⟨hfirst, honce⟩ := List.pairwise_cons.mp honce
    obtain ⟨haction, heffect⟩ := List.forall_mem_cons.mp heffect
    rcases haction with hflag | ⟨hdest, hrelocates⟩
    · have hstep := perform_flag world s hflag
      have hdest : action.isDest = false := by
        rcases hflag with htype | htype <;> simp [Action.isDest, htype]
      have hsettles := ih (h.flag hstep) honce heffect
      rw [List.foldl_cons]
      exact {
        total := fun path hpath => (hsettles.total path hpath).trans (hstep.totalGap path)
        addressed := by
          rw [hsettles.addressed, hstep.addressed]
          simp [leftAlone, hdest, h.placed]
        unread := fun halone path hpath => by
          have halone : leftAlone world letter rest = true := by
            simpa [leftAlone, hdest] using halone
          rw [hsettles.unread halone path hpath, hstep.unreadGap h.placed h.read, hstep.msg_read]
          simp [readLate, hdest, h.expunged, Bool.not_or] }
    · apply h.dest hdest hrelocates
      intro a ha
      rcases heffect a ha with hflag | ⟨hadest, -⟩
      · exact hflag
      · exact absurd hadest (by simp [hfirst a ha hdest])


/-! ## A batch -/

/-- Letters with different ids. -/
structure Batch where
  messages : List Message
  distinct : (messages.map (·.id)).Nodup

/-- The adjustments for each synced folder add up to the letters that are there at the end less those
that were there before, and every flag store reaches its letter. -/
structure CountsRight (world : World) (rules : List Rule) (batch : Batch) : Prop where
  total : ∀ path, synced world path = true →
    ((applyInboxRules world rules batch.messages).letters.map (·.total path)).sum =
      ((applyInboxRules world rules batch.messages).letters.map (·.actual.inFolder path)).sum -
        (batch.messages.map fun msg => (State.initial msg).actual.inFolder path).sum
  unread : ∀ path, synced world path = true →
    ((applyInboxRules world rules batch.messages).letters.map (·.unread path)).sum =
      ((applyInboxRules world rules batch.messages).letters.map (·.actual.unreadIn path)).sum -
        (batch.messages.map fun msg => (State.initial msg).actual.unreadIn path).sum
  addressed : ∀ letter ∈ (applyInboxRules world rules batch.messages).letters,
    ∀ store ∈ letter.stores, store.Addressed

theorem withBody_eq (world : World) (rules : List Rule) (msg : Message) :
    ∃ bodyUnknown bodyText, withBody world rules msg = { msg with bodyUnknown, bodyText } := by
  unfold withBody
  split
  · split
    · exact ⟨_, _, rfl⟩
    · exact ⟨_, _, rfl⟩
    · exact ⟨_, _, rfl⟩
  · exact ⟨_, _, rfl⟩

theorem leftAlone_congr {msg letter : Message}
    (h : msg.id = letter.id ∧ msg.folder = letter.folder ∧ msg.uid = letter.uid) (ran : List Action) :
    leftAlone world msg ran = leftAlone world letter ran := by
  induction ran with
  | nil => rfl
  | cons action rest ih => rw [leftAlone, leftAlone, fate_congr h, ih]

theorem readLate_congr {msg letter : Message}
    (h : msg.id = letter.id ∧ msg.folder = letter.folder ∧ msg.uid = letter.uid) (unread : Bool)
    (ran : List Action) : readLate world msg unread ran = readLate world letter unread ran := by
  induction ran generalizing unread with
  | nil => rfl
  | cons action rest ih => rw [readLate, readLate, fate_congr h, ih]

theorem settle_settles (world : World) (rules : List Rule) (msg : Message) :
    Settles world msg (actionsOn world rules msg) (State.initial msg) (settle world rules msg) := by
  obtain ⟨bodyUnknown, bodyText, hbody⟩ := withBody_eq world rules msg
  have hhome : Home (withBody world rules msg) (State.initial (withBody world rules msg)) :=
    ⟨⟨rfl, rfl⟩, rfl, rfl, rfl, rfl, rfl⟩
  have hsettles := hhome.settles (actionsOn_once msg) fun action haction => by
    rcases actionsOn_effect msg action haction with hmark | hstar | hdest
    · exact .inl (.inl hmark)
    · exact .inl (.inr hstar)
    · exact .inr hdest
  have hinitial : State.initial (withBody world rules msg) =
      { State.initial msg with msg := withBody world rules msg } := by
    rw [hbody]
    rfl
  have hplace : (withBody world rules msg).id = msg.id ∧
      (withBody world rules msg).folder = msg.folder ∧ (withBody world rules msg).uid = msg.uid := by
    rw [hbody]
    exact ⟨rfl, rfl, rfl⟩
  have hread : (State.initial (withBody world rules msg)).msg.read = (State.initial msg).msg.read := by
    rw [hbody]
    rfl
  obtain ⟨htotal, haddressed, hunread⟩ := hsettles
  rw [leftAlone_congr hplace] at haddressed hunread
  rw [readLate_congr hplace, hread, hplace.2.1] at hunread
  rw [← settle, hinitial] at htotal haddressed hunread
  exact ⟨htotal, haddressed, hunread⟩

/-- How often the letters of a list have a property. -/
theorem sum_eq_zero_iff (messages : List Message) (P : Message → Prop) [DecidablePred P] :
    0 ≤ (messages.map fun msg => if P msg then (1 : Int) else 0).sum ∧
      ((messages.map fun msg => if P msg then (1 : Int) else 0).sum = 0 ↔
        ∀ msg ∈ messages, ¬P msg) := by
  induction messages with
  | nil => simp
  | cons msg messages ih =>
    rw [List.map_cons, List.sum_cons, List.forall_mem_cons, ← ih.2]
    obtain ⟨hnonneg, -⟩ := ih
    by_cases hmsg : P msg
    · simp only [hmsg, if_true, not_true_eq_false, false_and, iff_false]
      omega
    · simp only [hmsg, if_false, not_false_eq_true, true_and]
      omega

theorem sum_add (messages : List Message) {f g h e : Message → Int}
    (heq : ∀ msg ∈ messages, f msg = g msg - h msg - e msg) :
    (messages.map f).sum = (messages.map g).sum - (messages.map h).sum - (messages.map e).sum := by
  induction messages with
  | nil => rfl
  | cons msg messages ih =>
    obtain ⟨hmsg, heq⟩ := List.forall_mem_cons.mp heq
    simp only [List.map_cons, List.sum_cons, ih heq, hmsg]
    omega

/-- **The counts of a batch are right exactly when** no action runs on a letter after a delete that
moved it or after a move or archive whose new uid is not known, and no letter is marked as read for
the first time after it was expunged from a folder that is counted. -/
theorem countsRight_iff (world : World) (rules : List Rule) (batch : Batch) :
    CountsRight world rules batch ↔ ∀ msg ∈ batch.messages,
      leftAlone world msg (actionsOn world rules msg) = true ∧
        (synced world msg.folder = true →
          readLate world msg (!msg.read) (actionsOn world rules msg) = false) := by
  have hletters := applyInboxRules_letters world rules batch.distinct
  have haddressed : (∀ letter ∈ (applyInboxRules world rules batch.messages).letters,
      ∀ store ∈ letter.stores, store.Addressed) ↔
      ∀ msg ∈ batch.messages, leftAlone world msg (actionsOn world rules msg) = true := by
    rw [hletters, List.forall_mem_map]
    refine forall₂_congr fun msg _ => ?_
    rw [(settle_settles world rules msg).addressed]
    exact and_iff_right nofun
  have htotal {path : String} (hpath : synced world path = true) :
      (batch.messages.map fun msg => (settle world rules msg).total path).sum =
        (batch.messages.map fun msg => (settle world rules msg).actual.inFolder path).sum -
          (batch.messages.map fun msg => (State.initial msg).actual.inFolder path).sum := by
    have hsum := sum_add batch.messages (e := fun _ => 0)
      (f := fun msg => (settle world rules msg).total path)
      (g := fun msg => (settle world rules msg).actual.inFolder path)
      (h := fun msg => (State.initial msg).actual.inFolder path) fun msg _ => by
        have hgap := (settle_settles world rules msg).total path hpath
        simp only [State.totalGap] at hgap
        have hzero : (State.initial msg).total path = 0 := rfl
        omega
    simpa using hsum
  have hunread {path : String} (hpath : synced world path = true)
      (halone : ∀ msg ∈ batch.messages, leftAlone world msg (actionsOn world rules msg) = true) :
      (batch.messages.map fun msg => (settle world rules msg).unread path).sum =
        (batch.messages.map fun msg => (settle world rules msg).actual.unreadIn path).sum -
          (batch.messages.map fun msg => (State.initial msg).actual.unreadIn path).sum -
          (batch.messages.map fun msg =>
            if readLate world msg (!msg.read) (actionsOn world rules msg) = true ∧ msg.folder = path
            then 1 else 0).sum :=
    sum_add batch.messages fun msg hmem => by
      have hgap := (settle_settles world rules msg).unread (halone msg hmem) path hpath
      simp only [State.unreadGap] at hgap
      have hzero : (State.initial msg).unread path = 0 := rfl
      have hread : (State.initial msg).msg.read = msg.read := rfl
      rw [hzero, hread] at hgap
      omega
  constructor
  · intro h
    have halone := haddressed.mp h.addressed
    refine fun msg hmem => ⟨halone msg hmem, fun hsynced => ?_⟩
    have hright := h.unread msg.folder hsynced
    rw [hletters, List.map_map, List.map_map] at hright
    have hsum := hunread hsynced halone
    have hnone := (sum_eq_zero_iff batch.messages fun letter =>
      readLate world letter (!letter.read) (actionsOn world rules letter) = true ∧
        letter.folder = msg.folder).2.mp (by
          simp only [Function.comp_def] at hright
          omega)
    exact Bool.eq_false_of_not_eq_true fun hlate => hnone msg hmem ⟨hlate, rfl⟩
  · intro h
    have halone msg hmem := (h msg hmem).1
    refine ⟨fun path hpath => ?_, fun path hpath => ?_, haddressed.mpr halone⟩
    · rw [hletters, List.map_map, List.map_map]
      exact htotal hpath
    · rw [hletters, List.map_map, List.map_map]
      have hnone := (sum_eq_zero_iff batch.messages fun letter =>
        readLate world letter (!letter.read) (actionsOn world rules letter) = true ∧
          letter.folder = path).2.mpr fun msg hmem hlate => by
            have hfine := (h msg hmem).2 (hlate.2 ▸ hpath)
            exact absurd hlate.1 (by simp [hfine])
      have hsum := hunread hpath halone
      simp only [Function.comp_def]
      omega

/-- A mailbox with INBOX and Trash, whose server tells the new uids. -/
def plainMailbox : World where
  toLowerCase := id
  trim := id
  testRegex _ _ _ _ := false
  htmlToText := id
  folders := [{ path := "INBOX", name := "INBOX" },
    { path := "Trash", name := "Trash", special_use := some "\\Trash" }]
  mappings := { trash := "Trash" }
  bodies _ := none
  fetchHeaders _ _ := none
  forward _ _ := some none
  assignedUid _ := 7
  reportsUid _ := true

/-- Two rules about letters with attachments: delete, then mark as read. -/
def deleteThenRead : List Rule :=
  [{ id := 1, conditions := [{ field := .has_attachment }], actions := [{ type := .delete }] },
    { id := 2, conditions := [{ field := .has_attachment }], actions := [{ type := .mark_read }] }]

def oneLetter : Batch where
  messages := [{ id := 1, folder := "INBOX", uid := 100, hasAttachments := true }]
  distinct := by decide

/-- INBOX loses two unread letters for one, and Trash keeps an unread letter that was read. -/
theorem not_countsRight :
    ¬∀ (world : World) (rules : List Rule) (batch : Batch), CountsRight world rules batch := by
  intro h
  have hinbox := (h plainMailbox deleteThenRead oneLetter).unread "INBOX" (by decide)
  exact absurd hinbox (by decide)

end MailExpert.InboxRules
