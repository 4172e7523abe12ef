import MailExpert.Threading.Batching

/-!
# What a recompute depends on

The root of a row is the only thing about its key that a pass can choose. A pass with batches of one
row, whose database answers for the right copy last, reaches every root that the row leads to; so the
keys depend on the batches and the stops exactly when two roots of a row have different keys.
-/

namespace MailExpert.Threading

/-- The pass goes on: it is neither stopped nor begun. -/
def uninterrupted (_ : State) : Label → Prop
  | .start _ | .stop => False
  | _ => True

instance (s : State) (l : Label) : Decidable (uninterrupted s l) :=
  match l with
  | .start _ | .stop => .isFalse id
  | .batch _ | .saveCursor | .tail _ | .saveTail | .finish => .isTrue trivial

/-- A recompute that finishes, stopped and resumed at any points, with any batches. -/
def Recomputes (mailbox : Mailbox) (mode : Mode) (s₀ s : State) : Prop :=
  ∃ batchSize s₁, step mailbox mode s₀ (.start batchSize) = some s₁ ∧
    (system mailbox mode).Run TransitionSystem.anyStep s₁ s ∧ s.Finished

/-- One pass that is not stopped, with batches of one size. -/
def OnePass (mailbox : Mailbox) (mode : Mode) (batchSize : Nat) (s₀ s : State) : Prop :=
  ∃ s₁, step mailbox mode s₀ (.start batchSize) = some s₁ ∧
    (system mailbox mode).Run uninterrupted s₁ s ∧ s.Finished

/-- One pass that is not stopped, with a batch that holds every row. -/
def SinglePass (mailbox : Mailbox) (mode : Mode) (s₀ s : State) : Prop :=
  ∃ batchSize, mailbox.rows.length ≤ batchSize ∧ OnePass mailbox mode batchSize s₀ s

/-- Every recompute leaves the live rows as a single pass does. -/
def SameResult (mailbox : Mailbox) (mode : Mode) (s₀ : State) : Prop :=
  ∀ s s', Recomputes mailbox mode s₀ s → SinglePass mailbox mode s₀ s' →
    ∀ row ∈ mailbox.rows, row.is_deleted = false → s.columns row.id = s'.columns row.id

/-- Whichever copy of each Message-ID its chain goes through, a live row ends at one key. -/
structure Unambiguous (mailbox : Mailbox) (mode : Mode) : Prop where
  dated : mailbox.walk = pre ++ row :: post → Leads mode pre row root → Leads mode pre row root' →
    (root.own mode).threadId = (root'.own mode).threadId
  undated : mailbox.selectUndated = pre ++ row :: post →
    LeadsUndated mode mailbox.walk pre row root → LeadsUndated mode mailbox.walk pre row root' →
    (root.own mode).threadId = (root'.own mode).threadId

variable {mailbox : Mailbox} {mode : Mode} {s₀ s : State} {columns : Columns}
  {done rest batch pre post : List Row} {row : Row} {resolved : List (String × String)} {n : Nat}

theorem OnePass.recomputes (h : OnePass mailbox mode n s₀ s) : Recomputes mailbox mode s₀ s := by
  obtain ⟨s₁, hstart, hrun, hfinished⟩ := h
  exact ⟨n, s₁, hstart, hrun.anyStep, hfinished⟩

theorem Recomputes.kept (hinit : (system mailbox mode).init s₀) (h : Recomputes mailbox mode s₀ s) :
    Kept mailbox mode s := by
  obtain ⟨n, s₁, hstart, hrun, -⟩ := h
  have hstable : (system mailbox mode).Stable TransitionSystem.anyStep (Kept mailbox mode) :=
    fun s l s' hkept _ hstep => hkept.step hstep
  exact hstable.run (kept_of_start hinit hstart) hrun

/-- **A finished recompute** leaves the live rows with keys that they derive. -/
theorem Recomputes.derived (hinit : (system mailbox mode).init s₀)
    (h : Recomputes mailbox mode s₀ s) : Derived mode s.columns mailbox.walk ∧
      DerivedUndated mode s.columns mailbox.walk mailbox.selectUndated := by
  have hkept := h.kept hinit
  obtain ⟨-, -, -, -, -, hfinished⟩ := h
  cases hkept with
  | going recompute pass? done rest htarget hgoing => simp [hgoing] at hfinished
  | finished _ _ hderived hundated => exact ⟨hderived, hundated⟩

theorem Unambiguous.derives {key key' : ThreadKey} (h : Unambiguous mailbox mode)
    (hwalk : mailbox.walk = pre ++ row :: post) (hkey : Derives mode pre row key)
    (hkey' : Derives mode pre row key') : key = key' := by
  obtain ⟨root, hroot, rfl⟩ := hkey
  obtain ⟨root', hroot', rfl⟩ := hkey'
  unfold Row.keyIn
  rw [h.dated hwalk hroot hroot']

theorem Unambiguous.derivesUndated {key key' : ThreadKey} (h : Unambiguous mailbox mode)
    (hundated : mailbox.selectUndated = pre ++ row :: post)
    (hkey : DerivesUndated mode mailbox.walk pre row key)
    (hkey' : DerivesUndated mode mailbox.walk pre row key') : key = key' := by
  obtain ⟨root, hroot, rfl⟩ := hkey
  obtain ⟨root', hroot', rfl⟩ := hkey'
  unfold Row.keyIn
  rw [h.undated hundated hroot hroot']

theorem Unambiguous.sameResult (h : Unambiguous mailbox mode) (hinit : (system mailbox mode).init s₀) :
    SameResult mailbox mode s₀ := by
  intro s s' hs hs' row hrow hlive
  obtain ⟨n, -, honce⟩ := hs'
  obtain ⟨hderived, hundated⟩ := hs.derived hinit
  obtain ⟨hderived', hundated'⟩ := honce.recomputes.derived hinit
  cases hdate : row.date with
  | some date =>
    obtain ⟨pre, post, hwalk⟩ :=
      List.append_of_mem (mem_walk.mpr ⟨hrow, hlive, Option.isSome_of_eq_some hdate⟩)
    exact h.derives hwalk (hderived pre row post hwalk) (hderived' pre row post hwalk)
  | none =>
    obtain ⟨pre, post, hsplit⟩ := List.append_of_mem (mem_selectUndated.mpr ⟨hrow, hlive, hdate⟩)
    exact h.derivesUndated hsplit (hundated pre row post hsplit) (hundated' pre row post hsplit)

/-! ## The keys that a recompute may leave -/

/-- A pass that was not stopped, between two batches. -/
def Walked (mailbox : Mailbox) (mode : Mode) (n : Nat) (s₀ : State) (done : List Row)
    (columns : Columns) : Prop :=
  Derived mode columns done ∧ ∃ s₁ recompute pass, step mailbox mode s₀ (.start n) = some s₁ ∧
    (system mailbox mode).Run uninterrupted s₁
      { columns, recompute := some recompute, pass := some pass } ∧
    pass.batchSize = n ∧ pass.cursor = cursorOf done ∧ pass.stage = .walking

theorem Walked.start (hinit : (system mailbox mode).init s₀) (hn : n ≠ 0) :
    Walked mailbox mode n s₀ [] s₀.columns := by
  obtain ⟨total, hstart⟩ := start_eq hinit hn
  refine ⟨fun pre row post hsplit => by simp at hsplit, _, _, _, hstart, .refl, rfl, rfl, rfl⟩

theorem rekey_eq {pass : Pass} {stage : Stage} (hresolved : resolved.Perm
      (mailbox.resolveAncestors s.columns (collectCandidateIds batch) pass.cursor)) :
    rekey mailbox mode s pass batch resolved stage = some { s with
      columns := (rekeyBatch mode s.columns batch resolved).1
      pass := some { pass with
        processed := pass.processed + batch.length
        changed := pass.changed + (rekeyBatch mode s.columns batch resolved).2, stage } } :=
  if_pos hresolved

theorem Walked.next (h : Walked mailbox mode n s₀ done columns)
    (hwalk : mailbox.walk = done ++ (batch ++ rest)) (hbatch : (batch ++ rest).take n = batch)
    (hne : batch ≠ []) (hresolved : resolved.Perm
      (mailbox.resolveAncestors columns (collectCandidateIds batch) (cursorOf done))) :
    Walked mailbox mode n s₀ (done ++ batch) (rekeyBatch mode columns batch resolved).1 := by
  obtain ⟨hderived, s₁, recompute, pass, hstart, hrun, hsize, hcursor, hstage⟩ := h
  refine ⟨hderived.rekeyBatch hwalk hresolved, s₁, ?_⟩
  have hselect : mailbox.selectBatch pass.cursor pass.batchSize = batch := by
    rw [Mailbox.selectBatch, hcursor, hsize, filter_isAfter hwalk, hbatch]
  have hlast := List.getLast?_eq_some_getLast hne
  have hwritten := hrun.tail (l := Label.batch resolved) trivial (by
    simp only [system, step, Option.filter_some, hstage, decide_true, if_true, Option.bind_eq_bind,
      Option.bind_some, hselect, hlast]
    exact rekey_eq (hcursor ▸ hresolved))
  have hsaved := hwritten.tail (l := Label.saveCursor) trivial rfl
  refine ⟨_, _, hstart, hsaved, hsize, ?_, rfl⟩
  rw [cursorOf, List.getLast?_append, hlast]
  rfl

theorem Walked.oneRow (h : Walked mailbox mode 1 s₀ done columns)
    (hwalk : mailbox.walk = done ++ row :: rest) (hresolved : resolved.Perm
      (mailbox.resolveAncestors columns (collectCandidateIds [row]) (cursorOf done))) :
    ∃ columns', Walked mailbox mode 1 s₀ (done ++ [row]) columns' ∧
      (∀ earlier ∈ done, columns' earlier.id = columns earlier.id) ∧
      columns' row.id = match row.under mode (present done) with
        | some (c, reason) => { threadId := (Keys.ofResolved resolved).get c, reason := some reason }
        | none => row.own mode := by
  have hbatch : mailbox.walk = done ++ ([row] ++ rest) := hwalk
  refine ⟨_, h.next hbatch rfl (List.cons_ne_nil row []) hresolved, fun earlier hearlier => ?_, ?_⟩
  · exact rekeyBatch_of_not_mem (id_not_mem_batch hbatch hearlier)
  · have hresolves := resolves_of_resolved hwalk h.1 (fun c => collectCandidateIds_ne_empty) hresolved
    have hcandidates : ∀ c ∈ row.candidates, c ∈ collectCandidateIds [row] := fun c hc =>
      mem_collectCandidateIds (List.mem_singleton.mpr rfl) hc
    have hsame := hresolves.under hcandidates
    have hkey : threadingForRow row mode (.ofResolved resolved) = _ := threadingForRow_eq
    rw [hsame] at hkey
    exact (rekeyBatch_of_mem (batch_nodup hbatch) (mem_rekeyRows mode _ [] row [])).trans hkey

/-- The pass goes on, and the rows it went over keep their keys. -/
theorem Walked.extend {middle : List Row} (h : Walked mailbox mode 1 s₀ done columns)
    (hwalk : mailbox.walk = done ++ (middle ++ rest)) :
    ∃ columns', Walked mailbox mode 1 s₀ (done ++ middle) columns' ∧
      ∀ earlier ∈ done, columns' earlier.id = columns earlier.id := by
  induction middle generalizing done columns with
  | nil =>
    rw [List.append_nil]
    exact ⟨columns, h, fun _ _ => rfl⟩
  | cons row middle ih =>
    obtain ⟨columns₁, hwalked, hkept, -⟩ := h.oneRow hwalk (.refl _)
    have hnext : mailbox.walk = (done ++ [row]) ++ (middle ++ rest) := by
      rw [hwalk, List.append_assoc]
      rfl
    obtain ⟨columns', hwalked', hkept'⟩ := ih hwalked hnext
    refine ⟨columns', by simpa using hwalked', fun earlier hearlier => ?_⟩
    rw [hkept' earlier (List.mem_append_left _ hearlier), hkept earlier hearlier]

/-- The database may answer for any of the rows that have a Message-ID last. -/
theorem exists_resolved {candidates : List String} {parent : Row} {c : String}
    (hderived : Derived mode columns done) (hwalk : mailbox.walk = done ++ rest)
    (hdone : done = pre ++ parent :: post) (hparent : parent.messageId = some c)
    (hc : c ∈ candidates) : ∃ resolved : List (String × String),
      resolved.Perm (mailbox.resolveAncestors columns candidates (cursorOf done)) ∧
        (Keys.ofResolved resolved).get c = (columns parent.id).threadId := by
  have hsome : (columns parent.id).threadId.isSome = true :=
    (hderived pre parent post hdone).isSome (by rw [hparent]; rfl)
  obtain ⟨threadId, hkey⟩ := Option.isSome_iff_exists.mp hsome
  have hmem : parent ∈ done := hdone ▸ by simp
  obtain ⟨hrow, hlive, -⟩ := mem_walk.mp (hwalk ▸ List.mem_append_left rest hmem)
  have hanswer : (c, threadId) ∈ mailbox.resolveAncestors columns candidates (cursorOf done) := by
    apply mem_resolveAncestors.mpr
    refine ⟨parent, hrow, hlive, (isUpTo_iff hwalk hrow hlive).mpr hmem,
      message_id_of_messageId hparent, hkey, hc⟩
  refine ⟨_ ++ [(c, threadId)], (List.perm_append_singleton _ _).trans
    (List.perm_cons_erase hanswer).symm, ?_⟩
  rw [hkey, Keys.ofResolved_eq, List.map_append, List.reverse_append]
  simp [Keys.get]

/-- **Every root of a row** is reached, with batches of one row. -/
theorem Leads.exists_walked {before : List Row} {root : Row}
    (hinit : (system mailbox mode).init s₀) (h : Leads mode before row root)
    (hwalk : mailbox.walk = before ++ row :: rest) :
    ∃ columns, Walked mailbox mode 1 s₀ (before ++ [row]) columns ∧
      columns row.id = row.keyIn mode (present before) root := by
  induction h generalizing rest with
  | @own before row hunder =>
    obtain ⟨columns, hwalked, -⟩ := (Walked.start hinit Nat.one_ne_zero).extend hwalk
    rw [List.nil_append] at hwalked
    obtain ⟨columns', hrow, -, hkey⟩ := hwalked.oneRow hwalk (.refl _)
    refine ⟨columns', hrow, ?_⟩
    rw [hkey, hunder, Row.keyIn_own hunder]
  | @copy c reason pre parent root post row hunder hparent hroot ih =>
    have hparents : mailbox.walk = pre ++ parent :: (post ++ row :: rest) := by simpa using hwalk
    obtain ⟨columns₀, hwalked₀, hkey₀⟩ := ih hparents
    have hmiddle : mailbox.walk = (pre ++ [parent]) ++ (post ++ row :: rest) := by simpa using hwalk
    obtain ⟨columns, hwalked, hkept⟩ := hwalked₀.extend hmiddle
    have hdone : (pre ++ [parent]) ++ post = pre ++ parent :: post := by simp
    rw [hdone] at hwalked
    have hmem : c ∈ collectCandidateIds [row] :=
      mem_collectCandidateIds (List.mem_singleton.mpr rfl) (Row.under_some hunder).1
    obtain ⟨resolved, hresolved, hget⟩ := exists_resolved hwalked.1 hwalk rfl hparent hmem
    obtain ⟨columns', hrow, -, hkey⟩ := hwalked.oneRow hwalk hresolved
    refine ⟨columns', hrow, ?_⟩
    rw [hkey, hunder, Row.keyIn_under hunder]
    dsimp only
    rw [hget, hkept parent (by simp), hkey₀, hroot.threadId]

/-- A Message-ID that none of the rows has keeps its key. -/
theorem get_keysAfter {keys : Keys} {c : String} (h : present batch c = false) :
    (keysAfter mode keys batch).get c = keys.get c := by
  induction batch generalizing keys with
  | nil => rfl
  | cons row batch ih =>
    obtain ⟨hrow, hbatch⟩ : row.messageId ≠ some c ∧ present batch c = false := by
      simpa [present] using h
    rw [keysAfter, ih hbatch, Keys.get_setRow, if_neg hrow]

theorem get_keysAfter_append {keys : Keys} {parent : Row} {c : String}
    (hparent : parent.messageId = some c) (h : present post c = false) :
    (keysAfter mode keys (pre ++ parent :: post)).get c =
      (threadingForRow parent mode (keysAfter mode keys pre)).threadId := by
  rw [keysAfter_append, keysAfter, get_keysAfter h, Keys.get_setRow, if_pos hparent]

theorem Walked.all (hinit : (system mailbox mode).init s₀) :
    ∃ columns, Walked mailbox mode 1 s₀ mailbox.walk columns := by
  have hall : mailbox.walk = [] ++ (mailbox.walk ++ []) := (List.append_nil _).symm
  obtain ⟨columns, hwalked, -⟩ := (Walked.start hinit Nat.one_ne_zero).extend hall
  exact ⟨columns, hwalked⟩

/-- **Every root of an undated row** is reached. -/
theorem LeadsUndated.exists_walked {before : List Row} {root : Row}
    (hinit : (system mailbox mode).init s₀) (h : LeadsUndated mode mailbox.walk before row root)
    (hundated : mailbox.selectUndated = before ++ row :: rest) :
    ∃ columns resolved, Walked mailbox mode 1 s₀ mailbox.walk columns ∧
      resolved.Perm (mailbox.resolveAncestors columns
        (collectCandidateIds mailbox.selectUndated) (cursorOf mailbox.walk)) ∧
      (rekeyBatch mode columns mailbox.selectUndated resolved).1 row.id =
        row.keyIn mode (present (mailbox.walk ++ before)) root := by
  have hcandidates {before rest : List Row} {row : Row} {c : String}
      (hundated : mailbox.selectUndated = before ++ row :: rest) (hc : c ∈ row.candidates) :
      c ∈ collectCandidateIds mailbox.selectUndated :=
    mem_collectCandidateIds (hundated ▸ by simp) hc
  induction h generalizing rest with
  | @own before row hunder =>
    obtain ⟨columns, hwalked⟩ := Walked.all hinit
    refine ⟨columns, _, hwalked, .refl _, ?_⟩
    have hsame := (hwalked.1.resolvesUndated (.refl _) hundated).under fun c => hcandidates hundated
    rw [rekeyTail_apply hundated, threadingForRow_eq, hsame, hunder, Row.keyIn_own hunder]
  | @dated c reason before pre parent post root row hunder hbefore hwalk hparent hroot =>
    obtain ⟨columns₀, hwalked₀, hkey₀⟩ := hroot.exists_walked hinit hwalk
    have hmiddle : mailbox.walk = (pre ++ [parent]) ++ (post ++ []) := by simpa using hwalk
    obtain ⟨columns, hwalked, hkept⟩ := hwalked₀.extend hmiddle
    rw [← List.append_nil post, ← hmiddle] at hwalked
    obtain ⟨resolved, hresolved, hget⟩ := exists_resolved hwalked.1 (List.append_nil _).symm hwalk hparent
      (hcandidates hundated (Row.under_some hunder).1)
    refine ⟨columns, resolved, hwalked, hresolved, ?_⟩
    have hsame := (hwalked.1.resolvesUndated hresolved hundated).under fun c => hcandidates hundated
    rw [rekeyTail_apply hundated, threadingForRow_eq, hsame, hunder, Row.keyIn_under hunder]
    dsimp only
    rw [get_keysAfter hbefore, hget, hkept parent (by simp), hkey₀, hroot.threadId]
  | @undated c reason post pre parent root row hunder hpost hparent hroot ih =>
    have hparents : mailbox.selectUndated = pre ++ parent :: (post ++ row :: rest) := by
      simpa using hundated
    obtain ⟨columns, resolved, hwalked, hresolved, hkey⟩ := ih hparents
    refine ⟨columns, resolved, hwalked, hresolved, ?_⟩
    have hsame := (hwalked.1.resolvesUndated hresolved hundated).under fun c => hcandidates hundated
    rw [rekeyTail_apply hundated, threadingForRow_eq, hsame, hunder, Row.keyIn_under hunder]
    dsimp only
    rw [get_keysAfter_append hparent hpost, ← rekeyTail_apply hparents, hkey,
      hroot.threadId]

/-- A pass that went over all rows of the walk finishes with the tail. -/
theorem Walked.finish (h : Walked mailbox mode n s₀ mailbox.walk columns)
    (hresolved : resolved.Perm (mailbox.resolveAncestors columns
      (collectCandidateIds mailbox.selectUndated) (cursorOf mailbox.walk))) :
    ∃ s, OnePass mailbox mode n s₀ s ∧
      s.columns = (rekeyBatch mode columns mailbox.selectUndated resolved).1 := by
  obtain ⟨-, s₁, recompute, pass, hstart, hrun, hsize, hcursor, hstage⟩ := h
  have hempty : mailbox.selectBatch pass.cursor pass.batchSize = [] := by
    rw [Mailbox.selectBatch, hcursor, filter_isAfter (List.append_nil _).symm, List.take_nil]
  have htail := hrun.tail (l := Label.tail resolved) trivial (by
    simp only [system, step, Option.filter_some, hstage, decide_true, if_true, Option.bind_eq_bind,
      Option.bind_some, hempty, ne_eq, not_true_eq_false, if_false]
    exact rekey_eq (hcursor ▸ hresolved))
  by_cases hnone : mailbox.selectUndated = []
  · simp only [hnone, if_true] at htail ⊢
    have hfinish := htail.tail (l := Label.finish) trivial rfl
    exact ⟨_, ⟨s₁, hstart, hfinish, rfl, rfl⟩, rfl⟩
  · simp only [hnone, if_false] at htail
    have hsaved := htail.tail (l := Label.saveTail) trivial rfl
    have hfinish := hsaved.tail (l := Label.finish) trivial rfl
    exact ⟨_, ⟨s₁, hstart, hfinish, rfl, rfl⟩, rfl⟩

theorem exists_singlePass (hinit : (system mailbox mode).init s₀) :
    ∃ s, SinglePass mailbox mode s₀ s := by
  have hwalked : Walked mailbox mode (mailbox.rows.length + 1) s₀ [] s₀.columns :=
    .start hinit (Nat.succ_ne_zero _)
  have hlength : mailbox.walk.length ≤ mailbox.rows.length + 1 := by
    rw [Mailbox.walk, List.length_insertionSort]
    exact Nat.le_succ_of_le (List.length_filter_le _ _)
  have hall : ∃ columns,
      Walked mailbox mode (mailbox.rows.length + 1) s₀ mailbox.walk columns := by
    by_cases hnone : mailbox.walk = []
    · rw [hnone]
      exact ⟨_, hwalked⟩
    · have hbatch : (mailbox.walk ++ []).take (mailbox.rows.length + 1) = mailbox.walk := by
        rw [List.append_nil, List.take_of_length_le hlength]
      exact ⟨_, hwalked.next (List.append_nil _).symm hbatch hnone (.refl _)⟩
  obtain ⟨columns, hall⟩ := hall
  obtain ⟨s, hpass, -⟩ := hall.finish (.refl _)
  exact ⟨s, _, Nat.le_succ _, hpass⟩

theorem Leads.exists_recomputes {root : Row} (hinit : (system mailbox mode).init s₀)
    (h : Leads mode pre row root) (hwalk : mailbox.walk = pre ++ row :: post) :
    ∃ s, Recomputes mailbox mode s₀ s ∧ (s.columns row.id).threadId = (root.own mode).threadId := by
  obtain ⟨columns₀, hwalked₀, hkey₀⟩ := h.exists_walked hinit hwalk
  have hmiddle : mailbox.walk = (pre ++ [row]) ++ (post ++ []) := by simpa using hwalk
  obtain ⟨columns, hwalked, hkept⟩ := hwalked₀.extend hmiddle
  rw [← List.append_nil post, ← hmiddle] at hwalked
  obtain ⟨s, hpass, hcolumns⟩ := hwalked.finish (.refl _)
  refine ⟨s, hpass.recomputes, ?_⟩
  have hrow : row ∈ mailbox.walk := hwalk ▸ by simp
  rw [hcolumns, rekeyBatch_of_not_mem (id_not_mem_selectUndated hrow), hkept row (by simp), hkey₀,
    h.threadId]

theorem LeadsUndated.exists_recomputes {root : Row} (hinit : (system mailbox mode).init s₀)
    (h : LeadsUndated mode mailbox.walk pre row root)
    (hundated : mailbox.selectUndated = pre ++ row :: post) :
    ∃ s, Recomputes mailbox mode s₀ s ∧ (s.columns row.id).threadId = (root.own mode).threadId := by
  obtain ⟨columns, resolved, hwalked, hresolved, hkey⟩ := h.exists_walked hinit hundated
  obtain ⟨s, hpass, hcolumns⟩ := hwalked.finish hresolved
  refine ⟨s, hpass.recomputes, ?_⟩
  rw [hcolumns, hkey, h.threadId]

/-- What two recomputes leave is the same, since a single pass leaves it. -/
theorem SameResult.recomputes {s s' : State} (h : SameResult mailbox mode s₀)
    (hinit : (system mailbox mode).init s₀) (hs : Recomputes mailbox mode s₀ s)
    (hs' : Recomputes mailbox mode s₀ s') (hrow : row ∈ mailbox.rows) (hlive : row.is_deleted = false) :
    s.columns row.id = s'.columns row.id := by
  obtain ⟨t, ht⟩ := exists_singlePass hinit
  rw [h s t hs ht row hrow hlive, h s' t hs' ht row hrow hlive]

/-- **The result of a recompute** does not depend on its batches, its stops and the order of the
database's answers exactly when no live row leads to two keys. -/
theorem sameResult_iff (hinit : (system mailbox mode).init s₀) :
    SameResult mailbox mode s₀ ↔ Unambiguous mailbox mode := by
  refine ⟨fun h => ⟨?_, ?_⟩, fun h => h.sameResult hinit⟩
  · intro pre row post root root' hwalk hroot hroot'
    obtain ⟨hrow, hlive, -⟩ := mem_walk.mp (hwalk ▸ by simp : row ∈ mailbox.walk)
    obtain ⟨s, hs, hkey⟩ := hroot.exists_recomputes hinit hwalk
    obtain ⟨s', hs', hkey'⟩ := hroot'.exists_recomputes hinit hwalk
    rw [← hkey, ← hkey', h.recomputes hinit hs hs' hrow hlive]
  · intro pre row post root root' hundated hroot hroot'
    obtain ⟨hrow, hlive, -⟩ := mem_selectUndated.mp (hundated ▸ by simp : row ∈ mailbox.selectUndated)
    obtain ⟨s, hs, hkey⟩ := hroot.exists_recomputes hinit hundated
    obtain ⟨s', hs', hkey'⟩ := hroot'.exists_recomputes hinit hundated
    rw [← hkey, ← hkey', h.recomputes hinit hs hs' hrow hlive]

/-! ## Mailboxes without copies -/

variable {c : String} {parent parent' root root' : Row} {pre' post' walk before rows : List Row}

def NoCopies (rows : List Row) : Prop :=
  rows.Pairwise fun a b => ∀ c, a.messageId = some c → b.messageId ≠ some c

theorem NoCopies.of_append_left (h : NoCopies (rows ++ before)) : NoCopies rows :=
  (List.pairwise_append.mp h).1

theorem NoCopies.of_append_right (h : NoCopies (rows ++ before)) : NoCopies before :=
  (List.pairwise_append.mp h).2.1

/-- One row has the Message-ID, at one place. -/
theorem NoCopies.split (h : NoCopies rows) (hrows : rows = pre ++ parent :: post)
    (hrows' : rows = pre' ++ parent' :: post') (hparent : parent.messageId = some c)
    (hparent' : parent'.messageId = some c) : pre = pre' ∧ parent = parent' := by
  have hall := h
  rw [hrows] at hall
  obtain ⟨-, hpost, hpre⟩ := List.pairwise_append.mp hall
  have hnotpre : parent ∉ pre := fun hmem =>
    hpre parent hmem parent (List.mem_cons_self ..) c hparent hparent
  have hnotpost : parent ∉ post := fun hmem => List.rel_of_pairwise_cons hpost hmem c hparent hparent
  have hsplit : pre' ++ parent' :: post' = pre ++ parent :: post := by rw [← hrows', hrows]
  have hparents : parent' = parent := by
    have hmem : parent' ∈ pre ++ parent :: post := hsplit ▸ by simp
    rcases List.mem_append.mp hmem with hmem | hmem
    · exact absurd hparent (hpre parent' hmem parent (List.mem_cons_self ..) c hparent')
    · rcases List.mem_cons.mp hmem with heq | hmem
      · exact heq
      · exact absurd hparent' (List.rel_of_pairwise_cons hpost hmem c hparent)
  subst hparents
  obtain ⟨hsame, -, -⟩ := (List.append_cons_inj_of_notMem hnotpre hnotpost).mp hsplit.symm
  exact ⟨hsame, rfl⟩

theorem Leads.unique (hcopies : NoCopies before) (h : Leads mode before row root)
    (h' : Leads mode before row root') : root = root' := by
  induction h with
  | own hunder =>
    cases h' with
    | own => rfl
    | copy hunder' => cases hunder.symm.trans hunder'
  | @copy c reason pre parent root post row hunder hparent hroot ih =>
    generalize hbefore : pre ++ parent :: post = before at h'
    cases h' with
    | own hunder' =>
      rw [hbefore, hunder'] at hunder
      cases hunder
    | copy hunder' hparent' hroot' =>
      rw [hbefore, hunder'] at hunder
      cases hunder
      obtain ⟨rfl, rfl⟩ := hcopies.split rfl hbefore hparent hparent'
      exact ih hcopies.of_append_left hroot'

theorem present_of_split (hparent : parent.messageId = some c) :
    present (pre ++ parent :: post) c = true := by
  rw [present_append]
  simp [present, hparent]

theorem LeadsUndated.unique (hcopies : NoCopies (walk ++ before))
    (h : LeadsUndated mode walk before row root) (h' : LeadsUndated mode walk before row root') :
    root = root' := by
  induction h with
  | own hunder =>
    cases h' with
    | own => rfl
    | dated hunder' => cases hunder.symm.trans hunder'
    | undated hunder' => cases hunder.symm.trans hunder'
  | dated hunder hbefore hwalk hparent hroot =>
    cases h' with
    | own hunder' => cases hunder.symm.trans hunder'
    | dated hunder' _ hwalk' hparent' hroot' =>
      cases hunder.symm.trans hunder'
      obtain ⟨rfl, rfl⟩ := hcopies.of_append_left.split hwalk hwalk' hparent hparent'
      rw [hwalk] at hcopies
      exact hroot.unique hcopies.of_append_left.of_append_left hroot'
    | undated hunder' _ hparent' =>
      cases hunder.symm.trans hunder'
      rw [present_of_split hparent'] at hbefore
      cases hbefore
  | @undated c reason post pre parent root row hunder _ hparent hroot ih =>
    generalize hbefore : pre ++ parent :: post = before at h'
    cases h' with
    | own hunder' =>
      rw [hbefore, hunder'] at hunder
      cases hunder
    | dated hunder' hnone =>
      rw [hbefore, hunder'] at hunder
      cases hunder
      rw [← hbefore, present_of_split hparent] at hnone
      cases hnone
    | undated hunder' _ hparent' hroot' =>
      rw [hbefore, hunder'] at hunder
      cases hunder
      obtain ⟨rfl, rfl⟩ := hcopies.of_append_right.split rfl hbefore hparent hparent'
      rw [← List.append_assoc] at hcopies
      exact ih hcopies.of_append_left hroot'

/-- **Where no two live rows have one Message-ID** every recompute has the same result. -/
theorem Unambiguous.of_noCopies {mailbox : Mailbox}
    (h : NoCopies (mailbox.walk ++ mailbox.selectUndated)) : Unambiguous mailbox mode := by
  refine ⟨fun hwalk hroot hroot' => ?_, fun hundated hroot hroot' => ?_⟩
  · rw [hwalk] at h
    rw [hroot.unique h.of_append_left.of_append_left hroot']
  · rw [hundated, ← List.append_assoc] at h
    rw [hroot.unique h.of_append_left hroot']

/-- Two letters came under one Message-ID, and a third replies to it. -/
def twoCopies : Mailbox where
  rows := [
    { id := 1, date := some 1, message_id := some "<m>" },
    { id := 2, date := some 2, message_id := some "<m>", in_reply_to := some "<r>" },
    { id := 3, date := some 3, message_id := some "<y>", in_reply_to := some "<m>" }]
  distinct := by decide

/-- No row has a key yet. -/
def unthreaded : State where
  columns _ := { threadId := none, reason := none }
  recompute := none
  pass := none

theorem sameResult_twoCopies :
    SameResult twoCopies .rfc unthreaded ↔ Unambiguous twoCopies .rfc :=
  sameResult_iff ⟨rfl, rfl⟩

/-- In one batch the reply follows the second copy, whose key the map has last. In batches of one row
it follows the first, when the database answers for the first copy last. -/
theorem not_sameResult : ¬ SameResult twoCopies .rfc unthreaded := by
  intro h
  let begun (batchSize : Nat) : State := {
    columns := unthreaded.columns, recompute := some { target_mode := .rfc, total := 3 }
    pass := some { batchSize, cursor := none, processed := 0, changed := 0, total := 3 } }
  have hsingle : ((system twoCopies .rfc).exec uninterrupted (begun 3)
      [.batch [], .saveCursor, .tail [], .finish]).any (fun s => s.pass.isNone &&
        s.recompute.any (·.finished) && (s.columns 3).threadId = some "<r>") = true := by decide
  have hrows : ((system twoCopies .rfc).exec uninterrupted (begun 1)
      [.batch [], .saveCursor, .batch [], .saveCursor, .batch [("<m>", "<r>"), ("<m>", "<m>")],
        .saveCursor, .tail [], .finish]).any (fun s => s.pass.isNone &&
        s.recompute.any (·.finished) && (s.columns 3).threadId = some "<m>") = true := by decide
  obtain ⟨s', hrun', hp'⟩ := TransitionSystem.run_of_exec_any hsingle
  obtain ⟨s, hrun, hp⟩ := TransitionSystem.run_of_exec_any hrows
  simp only [Bool.and_eq_true, Option.isNone_iff_eq_none, decide_eq_true_eq] at hp hp'
  obtain ⟨hfinished, hkey⟩ := hp
  obtain ⟨hfinished', hkey'⟩ := hp'
  have hone : OnePass twoCopies .rfc 1 unthreaded s := ⟨begun 1, rfl, hrun, hfinished⟩
  have hsame := h s s' hone.recomputes ⟨3, le_refl 3, begun 3, rfl, hrun', hfinished'⟩
    { id := 3, date := some 3, message_id := some "<y>", in_reply_to := some "<m>" }
    (by decide) rfl
  rw [hsame, hkey'] at hkey
  simp at hkey

end MailExpert.Threading
