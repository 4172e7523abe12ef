import MailExpert.Threading.Derives

/-!
# Batches and stops do not change the keys

A finished recompute leaves every live row with a key that the row derives (`Kept`), and every key
that a row derives is one that some recompute leaves. So the keys depend on the batches, the stops
and the order of the database's answers exactly when a row derives more than one.
-/

namespace MailExpert.Threading

/-- A pass that went over `done`, at its stage. -/
def KeptPass (mailbox : Mailbox) (mode : Mode) (columns : Columns) (done rest : List Row)
    (pass : Pass) : Prop :=
  pass.batchSize ≠ 0 ∧ pass.cursor = cursorOf done ∧ match pass.stage with
    | .walking => True
    | .batchWritten next => ∃ batch rest', rest = batch ++ rest' ∧
      next = cursorOf (done ++ batch) ∧ Derived mode columns (done ++ batch)
    | .tailWritten | .tailSaved =>
      rest = [] ∧ DerivedUndated mode columns mailbox.walk mailbox.selectUndated

/-- The rows up to the stored cursor have keys they derive, and all of them at the end. -/
inductive Kept (mailbox : Mailbox) (mode : Mode) : State → Prop
  | going (recompute : Recompute) (pass? : Option Pass) (done rest : List Row) :
    recompute.target_mode = mode → recompute.finished = false → mailbox.walk = done ++ rest →
    recompute.cursor = cursorOf done → Derived mode columns done →
    (∀ pass ∈ pass?, KeptPass mailbox mode columns done rest pass) →
    Kept mailbox mode { columns, recompute := some recompute, pass := pass? }
  | finished : recompute.target_mode = mode → recompute.finished = true →
    Derived mode columns mailbox.walk →
    DerivedUndated mode columns mailbox.walk mailbox.selectUndated →
    Kept mailbox mode { columns, recompute := some recompute, pass := none }

variable {mailbox : Mailbox} {mode : Mode} {columns : Columns} {s s' : State} {done rest : List Row}

theorem Derived.prefix {batch : List Row} (h : Derived mode columns (done ++ batch)) :
    Derived mode columns done :=
  fun pre row post hsplit => h pre row (post ++ batch) (by simp [hsplit])

theorem Kept.fresh {total batchSize : Nat} (hsize : batchSize ≠ 0) : Kept mailbox mode {
    columns, recompute := some { target_mode := mode, total }
    pass := some { batchSize, cursor := none, processed := 0, changed := 0, total } } := by
  refine .going _ _ [] _ rfl rfl (List.nil_append _).symm rfl ?_ ?_
  · intro pre row post hsplit
    simp at hsplit
  · intro pass hpass
    cases hpass
    exact ⟨hsize, rfl, trivial⟩

theorem Kept.start {batchSize : Nat} (h : Kept mailbox mode s)
    (hstep : step mailbox mode s (.start batchSize) = some s') : Kept mailbox mode s' := by
  simp only [step] at hstep
  split at hstep
  · cases hstep
  · next hidle =>
    have hsize : batchSize ≠ 0 := fun hzero => hidle (.inr hzero)
    cases h with
    | going recompute pass? done rest htarget hgoing hwalk hcursor hderived =>
      simp only [Option.filter_some, Recompute.resuming, htarget, hgoing, decide_true, Bool.not_false,
        Bool.and_self, if_true, Option.some.injEq] at hstep
      subst hstep
      refine .going _ _ done rest htarget hgoing hwalk hcursor hderived fun pass hpass => ?_
      cases hpass
      exact ⟨hsize, hcursor, trivial⟩
    | finished _ hfinished =>
      simp only [Option.filter_some, Recompute.resuming, hfinished, Bool.not_true, Bool.and_false,
        Bool.false_eq_true, if_false, Option.some.injEq] at hstep
      subst hstep
      exact .fresh hsize

theorem rekey_some {pass : Pass} {batch : List Row} {resolved : List (String × String)} {stage : Stage}
    (h : rekey mailbox mode s pass batch resolved stage = some s') :
    resolved.Perm (mailbox.resolveAncestors s.columns (collectCandidateIds batch) pass.cursor) ∧
      s'.columns = (rekeyBatch mode s.columns batch resolved).1 ∧ s'.recompute = s.recompute ∧
      ∃ pass', s'.pass = some pass' ∧ pass'.cursor = pass.cursor ∧ pass'.batchSize = pass.batchSize ∧
        pass'.stage = stage := by
  unfold rekey at h
  split at h
  · next hperm =>
    cases h
    exact ⟨hperm, rfl, rfl, _, rfl, rfl, rfl, rfl⟩
  · cases h

theorem filter_stage {pass : Pass} {stage : Stage} (h : s.pass.filter (·.stage = stage) = some pass) :
    s.pass = some pass ∧ pass.stage = stage := by
  simpa [Option.filter_eq_some_iff] using h

theorem Kept.batch {resolved : List (String × String)} (h : Kept mailbox mode s)
    (hstep : step mailbox mode s (.batch resolved) = some s') : Kept mailbox mode s' := by
  simp only [step, Option.bind_eq_bind, Option.bind_eq_some_iff] at hstep
  obtain ⟨pass, hpass, last, hlast, hrekey⟩ := hstep
  obtain ⟨hpass, -⟩ := filter_stage hpass
  obtain ⟨hperm, hcolumns, hrecompute, pass', hpass', hcursor', hsize', hstage⟩ := rekey_some hrekey
  cases h with
  | finished => cases hpass
  | going recompute pass? done rest htarget hgoing hwalk hcursor hderived hkept =>
    obtain ⟨hsize, hcursorPass, -⟩ := hkept pass hpass
    have hrest : rest = mailbox.selectBatch pass.cursor pass.batchSize ++ rest.drop pass.batchSize := by
      rw [Mailbox.selectBatch, hcursorPass, filter_isAfter hwalk, List.take_append_drop]
    generalize mailbox.selectBatch pass.cursor pass.batchSize = batch at hrest hlast hperm hcolumns
    rw [hrest] at hwalk
    rw [hcursorPass] at hperm
    have hbatch := hderived.rekeyBatch hwalk hperm
    obtain ⟨columns', recompute', pass?'⟩ := s'
    dsimp only at hcolumns hrecompute hpass'
    subst hcolumns hrecompute hpass'
    refine .going _ _ done _ htarget hgoing hwalk hcursor hbatch.prefix fun pass hmem => ?_
    cases hmem
    refine ⟨hsize' ▸ hsize, hcursor'.trans hcursorPass, ?_⟩
    rw [hstage]
    refine ⟨batch, _, rfl, ?_, hbatch⟩
    rw [cursorOf, List.getLast?_append, hlast]
    rfl

theorem Kept.saveCursor (h : Kept mailbox mode s)
    (hstep : step mailbox mode s .saveCursor = some s') : Kept mailbox mode s' := by
  simp only [step, Option.bind_eq_bind, Option.bind_eq_some_iff] at hstep
  obtain ⟨pass, hpass, hsave⟩ := hstep
  split at hsave
  · next next hstage =>
    cases h with
    | finished => cases hpass
    | going recompute pass? done rest htarget hgoing hwalk hcursor hderived hkept =>
      obtain ⟨hsize, -, hnext⟩ := hkept pass hpass
      rw [hstage] at hnext
      obtain ⟨batch, rest', rfl, hnext, hbatch⟩ := hnext
      cases hsave
      refine .going _ _ (done ++ batch) rest' htarget hgoing ?_ hnext hbatch fun pass' hmem => ?_
      · rw [hwalk, List.append_assoc]
      · cases hmem
        exact ⟨hsize, hnext, trivial⟩
  · cases hsave

/-- An empty batch is the end of the walk. -/
theorem rest_of_selectBatch {cursor : Option Cursor} {batchSize : Nat}
    (hwalk : mailbox.walk = done ++ rest) (hcursor : cursor = cursorOf done) (hsize : batchSize ≠ 0)
    (hempty : mailbox.selectBatch cursor batchSize = []) : rest = [] := by
  rw [Mailbox.selectBatch, hcursor, filter_isAfter hwalk] at hempty
  exact (List.take_eq_nil_iff.mp hempty).resolve_left hsize

theorem Kept.tail {resolved : List (String × String)} (h : Kept mailbox mode s)
    (hstep : step mailbox mode s (.tail resolved) = some s') : Kept mailbox mode s' := by
  simp only [step, Option.bind_eq_bind, Option.bind_eq_some_iff] at hstep
  obtain ⟨pass, hpass, htail⟩ := hstep
  obtain ⟨hpass, -⟩ := filter_stage hpass
  split at htail
  · cases htail
  · next hempty =>
    obtain ⟨hperm, hcolumns, hrecompute, pass', hpass', hcursor', hsize', hstage⟩ := rekey_some htail
    cases h with
    | finished => cases hpass
    | going recompute pass? done rest htarget hgoing hwalk hcursor hderived hkept =>
      obtain ⟨hsize, hcursorPass, -⟩ := hkept pass hpass
      obtain rfl := rest_of_selectBatch hwalk hcursorPass hsize (not_not.mp hempty)
      have hdone : mailbox.walk = done := by rw [hwalk, List.append_nil]
      rw [hcursorPass] at hperm
      subst hdone
      have hall := hderived.rekeyTail hperm
      obtain ⟨columns', recompute', pass?'⟩ := s'
      dsimp only at hcolumns hrecompute hpass'
      subst hcolumns hrecompute hpass'
      refine .going _ _ mailbox.walk [] htarget hgoing hwalk hcursor hall.1 fun pass hmem => ?_
      cases hmem
      refine ⟨hsize' ▸ hsize, hcursor'.trans hcursorPass, ?_⟩
      rw [hstage]
      split
      · next hnone =>
        split at hnone
        · cases hnone
        · cases hnone
      · next hnone =>
        split at hnone
        · cases hnone
        · cases hnone
      · exact ⟨rfl, hall.2⟩
      · exact ⟨rfl, hall.2⟩

theorem Kept.saveTail (h : Kept mailbox mode s)
    (hstep : step mailbox mode s .saveTail = some s') : Kept mailbox mode s' := by
  simp only [step, Option.bind_eq_bind, Option.bind_eq_some_iff] at hstep
  obtain ⟨pass, hpass, hsave⟩ := hstep
  obtain ⟨hpass, hstage⟩ := filter_stage hpass
  cases h with
  | finished => cases hpass
  | going recompute pass? done rest htarget hgoing hwalk hcursor hderived hkept =>
    obtain ⟨hsize, hcursorPass, htail⟩ := hkept pass hpass
    rw [hstage] at htail
    cases hsave
    refine .going _ _ done rest htarget hgoing hwalk hcursorPass hderived fun pass' hmem => ?_
    cases hmem
    exact ⟨hsize, hcursorPass, htail⟩

theorem Kept.finish (h : Kept mailbox mode s)
    (hstep : step mailbox mode s .finish = some s') : Kept mailbox mode s' := by
  simp only [step, Option.bind_eq_bind, Option.bind_eq_some_iff] at hstep
  obtain ⟨pass, hpass, hfinish⟩ := hstep
  obtain ⟨hpass, hstage⟩ := filter_stage hpass
  cases h with
  | finished => cases hpass
  | going recompute pass? done rest htarget hgoing hwalk hcursor hderived hkept =>
    obtain ⟨-, -, htail⟩ := hkept pass hpass
    rw [hstage] at htail
    obtain ⟨rfl, hundated⟩ := htail
    rw [List.append_nil] at hwalk
    cases hfinish
    exact .finished htarget rfl (hwalk ▸ hderived) hundated

theorem Kept.stop (h : Kept mailbox mode s)
    (hstep : step mailbox mode s .stop = some s') : Kept mailbox mode s' := by
  cases hstep
  cases h with
  | finished htarget hfinished hderived hundated => exact .finished htarget hfinished hderived hundated
  | going recompute pass? done rest htarget hgoing hwalk hcursor hderived =>
    exact .going recompute none done rest htarget hgoing hwalk hcursor hderived nofun

/-- **What every step keeps.** -/
theorem Kept.step {l : Label} (h : Kept mailbox mode s) (hstep : step mailbox mode s l = some s') :
    Kept mailbox mode s' := by
  cases l with
  | start => exact h.start hstep
  | batch => exact h.batch hstep
  | saveCursor => exact h.saveCursor hstep
  | tail => exact h.tail hstep
  | saveTail => exact h.saveTail hstep
  | finish => exact h.finish hstep
  | stop => exact h.stop hstep

/-- The first pass begins anew. -/
theorem start_eq {s₀ : State} {batchSize : Nat} (hinit : (system mailbox mode).init s₀)
    (hsize : batchSize ≠ 0) : ∃ total, step mailbox mode s₀ (.start batchSize) = some {
      columns := s₀.columns, recompute := some { target_mode := mode, total }
      pass := some { batchSize, cursor := none, processed := 0, changed := 0, total } } := by
  obtain ⟨hidle, hanew⟩ := hinit
  have hnone : s₀.recompute.filter (·.resuming mode) = none := by
    cases hrecompute : s₀.recompute with
    | none => rfl
    | some recompute => simpa [hrecompute] using hanew
  refine ⟨(mailbox.rows.filter fun row => !row.is_deleted).length, ?_⟩
  simp only [step, hidle, hnone, hsize, Option.isSome_none, Bool.false_eq_true, or_self,
    if_false]

theorem kept_of_start {s₀ : State} {batchSize : Nat} (hinit : (system mailbox mode).init s₀)
    (hstep : step mailbox mode s₀ (.start batchSize) = some s) : Kept mailbox mode s := by
  by_cases hsize : batchSize = 0
  · simp [step, hsize] at hstep
  · obtain ⟨total, hstart⟩ := start_eq hinit hsize
    cases hstep.symm.trans hstart
    exact .fresh hsize

end MailExpert.Threading
