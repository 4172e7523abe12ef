import MailExpert.MoveQueue.Invariant

/-!
# Claimed rows in the move queue

No step of the move queue claims a row or takes its claim (`step_sameClaims`). A claimed row has a server uid,
so no move of it is pending and none is accepted: it stays where it is, or goes (`claimed_stays`).
-/

namespace MailExpert.MoveQueue

variable {s s' : State} {l : Label} {db db' : Db} {t t' : Table Nat Message} {r n now account : Nat}
  {m m' : Message} {target : Target}

/-- Every row was there before, with the same `expunge_claim`. -/
def SameClaims (t t' : Table Nat Message) : Prop :=
  ∀ r m', t'.lookup r = some m' → ∃ m, t.lookup r = some m ∧ m.expungeClaim = m'.expungeClaim

namespace SameClaims

theorem refl : SameClaims t t := fun _ m' hm => ⟨m', hm, rfl⟩

theorem trans {t'' : Table Nat Message} (h : SameClaims t t') (h' : SameClaims t' t'') : SameClaims t t'' := by
  intro r m'' hm
  obtain ⟨m', hm', heq'⟩ := h' r m'' hm
  obtain ⟨m, hm, heq⟩ := h r m' hm'
  exact ⟨m, hm, heq.trans heq'⟩

theorem insert (h : SameClaims t t') (hm : t.lookup r = some m) (heq : m.expungeClaim = m'.expungeClaim) :
    SameClaims t (t'.insert r m') := by
  intro r' m'' hm''
  rw [Table.lookup_insert'] at hm''
  split at hm''
  next hr =>
    cases hm''
    exact ⟨m, hr ▸ hm, heq⟩
  next => exact h r' m'' hm''

theorem erase : SameClaims t (t.erase r) := by
  intro r' m' hm
  rw [Table.lookup_erase'] at hm
  split at hm
  · cases hm
  · exact ⟨m', hm, rfl⟩

theorem freePlace {folder : String} {uid : Int} : SameClaims t (Db.freePlace t account folder uid r) := by
  intro r' m' hm
  rw [Db.freePlace, Table.lookup_delete, Option.filter_eq_some_iff] at hm
  exact ⟨m', hm.1, rfl⟩

theorem enqueueRow (h : db.enqueueRow account r target now = some (n, db')) :
    SameClaims db.messages db'.messages := by
  simp only [Db.enqueueRow, Option.bind_eq_bind, Option.bind_eq_some_iff, Option.filter_eq_some_iff,
    Option.some.injEq, Prod.mk.injEq] at h
  obtain ⟨m, ⟨hm, -⟩, -, rfl⟩ := h
  exact refl.insert hm rfl

theorem enqueueRows {rowIds : List Nat} :
    SameClaims db.messages (db.enqueueRows account rowIds target now).messages := by
  induction rowIds generalizing db with
  | nil => exact refl
  | cons r rowIds ih =>
    rw [Db.enqueueRows, List.foldl_cons]
    cases he : db.enqueueRow account r target now with
    | none => exact ih
    | some e => exact (enqueueRow he).trans ih

theorem settle {uid : Int} {folder : Option String} {out : Db.Settled}
    (h : db.settle n uid folder now = some (out, db')) : SameClaims db.messages db'.messages := by
  simp only [Db.settle, Option.bind_eq_bind, Option.bind_eq_some_iff] at h
  obtain ⟨cur, hcur, h⟩ := h
  split at h
  · cases h
    exact refl
  · cases h
    exact refl
  next row hat =>
    split at h
    · cases h
      exact erase
    · cases h
      exact freePlace.insert (Db.rowAt_some.mp hat).1 rfl

theorem revert {out : Db.Reverted} (h : db.revert n now = some (out, db')) :
    SameClaims db.messages db'.messages := by
  simp only [Db.revert, Option.bind_eq_bind, Option.bind_eq_some_iff] at h
  obtain ⟨cur, hcur, h⟩ := h
  split at h
  · cases h
    exact refl
  · cases h
    exact refl
  next row hat =>
    obtain ⟨uid, -, h⟩ := Option.bind_eq_some_iff.mp h
    cases h
    exact freePlace.insert (Db.rowAt_some.mp hat).1 rfl

theorem drop (h : db.drop n = some db') : SameClaims db.messages db'.messages := by
  simp only [Db.drop, Option.bind_eq_bind, Option.bind_eq_some_iff] at h
  obtain ⟨cur, hcur, h⟩ := h
  cases h
  dsimp only
  split
  · exact erase
  · exact refl

end SameClaims

/-- No step claims a row or takes its claim; a row that is new comes from a sync. -/
theorem step_sameClaims (h : step s l = some s') (hm : s'.db.messages.lookup r = some m') :
    (∃ m, s.db.messages.lookup r = some m ∧ m.expungeClaim = m'.expungeClaim) ∨ l = .syncInsert r m' := by
  have hsame : SameClaims s.db.messages s'.db.messages → (∃ m, s.db.messages.lookup r = some m ∧
      m.expungeClaim = m'.expungeClaim) ∨ l = .syncInsert r m' := fun h => .inl (h r m' hm)
  cases l with
  | syncInsert id m =>
    simp only [step, Option.ite_none_right_eq_some, Option.some.injEq] at h
    obtain ⟨-, rfl⟩ := h
    rw [Table.lookup_insert'] at hm
    split at hm
    next hr =>
      cases hm
      exact .inr (hr ▸ rfl)
    next => exact .inl ⟨m', hm, rfl⟩
  | storeFlag rowId flag value ok =>
    simp only [step, Option.bind_eq_some_iff, Option.ite_none_right_eq_some, Option.some.injEq] at h
    obtain ⟨m, -, -, rfl⟩ := h
    exact hsame .refl
  | enqueueRows account rowIds target now =>
    simp only [step, Option.some.injEq] at h
    subst h
    exact hsame .enqueueRows
  | cancelPending account r dest =>
    simp only [step, cancelPending, Option.map_eq_some_iff, Prod.exists] at h
    obtain ⟨op, db, he, rfl⟩ := h
    simp only [Db.cancelPending, Option.bind_eq_bind, Option.bind_eq_some_iff, Prod.exists,
      Option.ite_none_right_eq_some, Option.some.injEq, Prod.mk.injEq] at he
    obtain ⟨m, n, op, hp, backUid, -, -, -, rfl⟩ := he
    exact hsame (SameClaims.refl.insert (Db.pendingMove_some.mp hp).1 rfl)
  | retargetPending account r target now =>
    simp only [step, Option.map_eq_some_iff] at h
    obtain ⟨db, he, rfl⟩ := h
    simp only [Db.retargetPending, Option.bind_eq_bind, Option.bind_eq_some_iff, Prod.exists,
      Option.ite_none_right_eq_some, Option.some.injEq] at he
    obtain ⟨m, n, op, hp, -, rfl⟩ := he
    exact hsame (SameClaims.refl.insert (Db.pendingMove_some.mp hp).1 rfl)
  | followPending account r target now =>
    simp only [step, Option.map_eq_some_iff] at h
    obtain ⟨db, he, rfl⟩ := h
    simp only [Db.followPending, Option.bind_eq_bind, Option.bind_eq_some_iff, Prod.exists,
      Option.ite_none_right_eq_some, Option.some.injEq] at he
    obtain ⟨m, n, prev, hp, -, rfl⟩ := he
    exact hsame (SameClaims.refl.insert (Db.pendingMove_some.mp hp).1 rfl)
  | absorbFlagPush rowId flag =>
    simp only [step, Option.bind_eq_bind, Option.bind_eq_some_iff, Option.some.injEq] at h
    obtain ⟨value, -, db, he, rfl⟩ := h
    obtain ⟨-, -, hmsg, -⟩ := Relinked.deferFlag he
    exact hsame (hmsg ▸ .refl)
  | deferFlags rowIds flag value =>
    simp only [step, Option.some.injEq] at h
    subst h
    obtain ⟨-, -, hmsg, -⟩ := relinked_deferFlags rowIds flag value s
    exact hsame (hmsg ▸ .refl)
  | pick n =>
    simp only [step, Option.ite_none_right_eq_some, Option.some.injEq] at h
    obtain ⟨-, rfl⟩ := h
    exact hsame .refl
  | settle n newUid folder store now =>
    simp only [step, Option.ite_none_right_eq_some] at h
    obtain ⟨out, he⟩ := settle_db h.2
    exact hsame (.settle he)
  | revert n now =>
    simp only [step, revert, Option.ite_none_right_eq_some, Option.map_eq_some_iff, Prod.exists] at h
    obtain ⟨-, out, db, he, rfl⟩ := h
    exact hsame (.revert he)
  | drop n =>
    simp only [step, drop, Option.ite_none_right_eq_some, Option.map_eq_some_iff] at h
    obtain ⟨-, db, he, rfl⟩ := h
    exact hsame (.drop he)
  | _ =>
    obtain ⟨ids, q, f, held, -, -, rfl⟩ := step_updateMoves rfl h
    exact hsame .refl

/-- A row at a server uid has no pending move. -/
theorem Chained.idle_of_uid (h : Chained db) (hm : db.messages.lookup r = some m) (hu : 0 ≤ m.uid) :
    0 < m.uid ∧ At db r .idle := by
  obtain ⟨c, hc⟩ := h.chain r
  have hplace := hc.place hm
  have hpos : ∀ n, m.uid = placeholderUid n → 0 < n → False := by
    intro n heq hn
    rw [heq] at hu
    simp only [placeholderUid] at hu
    omega
  cases c with
  | idle => exact ⟨hplace, hc⟩
  | one n mv => exact (hpos n hplace.1 (h.ids hc.only.1).1).elim
  | two p pv n mv => exact (hpos n hplace.1 (h.ids hc.second.1).1).elim

/-- Writes that leave every row where it is, and take none whose move is pending. -/
theorem Chained.setMessages (h : Chained db)
    (hsame : ∀ r m', t'.lookup r = some m' →
      ∃ m, db.messages.lookup r = some m ∧ m.uid = m'.uid ∧ m.folder = m'.folder)
    (hkept : ∀ r m, db.messages.lookup r = some m → m.uid ≤ 0 → ∃ m', t'.lookup r = some m') :
    Chained { db with messages := t' } where
  ids := h.ids
  next := h.next
  chain r := by
    obtain ⟨c, hc⟩ := h.chain r
    refine ⟨c, hc.moves, hc.wellFormed, fun {m'} hm' => ?_, fun hmem => ?_⟩
    · obtain ⟨m, hm, huid, hfolder⟩ := hsame r m' hm'
      have hplace := hc.place hm
      cases c with
      | idle =>
        have hpos : 0 < m.uid := hplace
        exact lt_of_lt_of_eq hpos huid
      | one n mv => exact ⟨huid ▸ hplace.1, hfolder ▸ hplace.2⟩
      | two p pv n mv => exact ⟨huid ▸ hplace.1, hfolder ▸ hplace.2⟩
    · obtain ⟨m, hm⟩ := hc.row hmem
      exact hkept r m hm (hc.uid_nonpos hmem hm)

/-- The row is at a server location, claimed for a permanent delete. -/
structure Claimed (db : Db) (r : Nat) (m : Message) : Prop where
  row : db.messages.lookup r = some m
  claim : m.expungeClaim = true
  pos : 0 < m.uid

/-- `enqueue` leaves a claimed row alone. -/
theorem Claimed.enqueueRows {rowIds : List Nat} (h : Claimed db r m) :
    Claimed (db.enqueueRows account rowIds target now) r m := by
  induction rowIds generalizing db with
  | nil => exact h
  | cons r' rowIds ih =>
    rw [Db.enqueueRows, List.foldl_cons]
    cases he : db.enqueueRow account r' target now with
    | none => exact ih h
    | some e =>
      obtain ⟨n, db'⟩ := e
      refine ih ⟨?_, h.claim, h.pos⟩
      simp only [Db.enqueueRow, Option.bind_eq_bind, Option.bind_eq_some_iff, Option.filter_eq_some_iff,
        Option.some.injEq, Prod.mk.injEq, decide_eq_true_eq] at he
      obtain ⟨m', ⟨hm', -, -, -, hfree⟩, -, rfl⟩ := he
      have hne : r ≠ r' := by
        rintro rfl
        cases hm'.symm.trans h.row
        exact hfree h.claim
      exact (AList.lookup_insert_ne hne).trans h.row

theorem RowWrite.claimed {c c' : Chain} (hw : RowWrite db db' n c') (hc : At db n c)
    (hs : Chain.Step l db n c c') (h : Claimed db r m) (hm' : db'.messages.lookup r = some m') :
    db.messages.lookup r = some m' ∨ ∃ m, l = .syncInsert r m := by
  by_cases hr : r = n
  · subst hr
    obtain rfl := hc.idle_of_pos h.row h.pos
    cases hs with
    | synced heq => exact .inr ⟨_, heq⟩
    | dropped _ hmem => simp at hmem
  · exact .inl ((hw.rows r m' hr).1 hm')

/-- A step of the move queue leaves a claimed row as it is, unless the row goes. -/
theorem claimed_stays (hinv : Inv s) (h : step s l = some s') (hc : Claimed s.db r m)
    (hm' : s'.db.messages.lookup r = some m') : m' = m := by
  have hkept : s'.db.messages.lookup r = some m' → s.db.messages.lookup r = some m' ∨ ∃ m, l = .syncInsert r m := by
    refine step_tables hinv h (P := fun db' => db'.messages.lookup r = some m' →
      s.db.messages.lookup r = some m' ∨ ∃ m, l = .syncInsert r m) ?_ ?_ ?_
    · intro db' hr hm'
      obtain ⟨-, -, hmsg, -⟩ := hr
      exact .inl (hmsg ▸ hm')
    · intro account rowIds target now _ hm'
      exact .inl (hc.row.trans ((@Claimed.enqueueRows _ _ _ _ _ _ rowIds hc).row.symm.trans hm'))
    · intro db' n c c' hat hs hw hm'
      exact hw.claimed hat hs hc hm'
  rcases hkept hm' with hold | ⟨m₀, rfl⟩
  · exact Option.some.inj (hold.symm.trans hc.row)
  · simp only [step, Option.ite_none_right_eq_some] at h
    rw [hc.row] at h
    cases h.1.1

end MailExpert.MoveQueue
