import MailExpert.MoveQueue.System

/-!
# Placeholders and chains

Seen from one message row the two tables are small: the row is at a server location and has no
move (`Chain.idle`), or it waits for its only move (`Chain.one`), or for a second one that waits
for the first to name its source (`Chain.two`). `At db r c` says that the row `r` of the tables is
in the state `c`, and `Chained db` that every row is in one of them.

Every statement of the queue moves one row from one of these states to another and leaves the
others where they were; each has a lemma that says so.
-/

namespace MailExpert.MoveQueue

/-- The moves of one message row. -/
inductive Chain
  | idle
  | one (n : Nat) (mv : Move)
  | two (p : Nat) (pv : Move) (n : Nat) (mv : Move)

namespace Chain

def moves : Chain → List (Nat × Move)
  | idle => []
  | one n mv => [(n, mv)]
  | two p pv n mv => [(p, pv), (n, mv)]

/-- The move is on its own: the server has its letter at its source. -/
def Starts (mv : Move) : Prop := (∃ u, mv.srcUid = some u ∧ 0 < u) ∧ mv.predecessorId = none

/-- The move waits for `p`. -/
def Waits (p : Nat) (pv mv : Move) : Prop :=
  mv.srcUid = none ∧ mv.predecessorId = some p ∧ mv.state = .queued ∧
    mv.srcFolder = pv.destFolder

def WellFormed : Chain → Prop
  | idle => True
  | one _ mv => Starts mv
  | two p pv n mv => p ≠ n ∧ Starts pv ∧ Waits p pv mv

@[simp] theorem mem_idle {e : Nat × Move} : e ∈ idle.moves ↔ False := by simp [moves]

@[simp] theorem mem_one {e : Nat × Move} : e ∈ (one n mv).moves ↔ e = (n, mv) := by simp [moves]

@[simp] theorem mem_two {e : Nat × Move} :
    e ∈ (two p pv n mv).moves ↔ e = (p, pv) ∨ e = (n, mv) := by simp [moves]

theorem eq_idle {c : Chain} (h : ∀ n mv, (n, mv) ∉ c.moves) : c = idle := by
  cases c with
  | idle => rfl
  | one n mv | two _ _ n mv => exact absurd (by simp) (h n mv)

/-- Where the row of such a chain is. -/
def Place (m : Message) : Chain → Prop
  | idle => 0 < m.uid
  | one n mv | two _ _ n mv => m.uid = placeholderUid n ∧ m.folder = mv.destFolder

end Chain

/-- The row `r` and its moves are in the state `c`. -/
structure At (db : Db) (r : Nat) (c : Chain) : Prop where
  moves : ∀ n mv, (db.moves.lookup n = some mv ∧ mv.messageRowId = r) ↔ (n, mv) ∈ c.moves
  wellFormed : c.WellFormed
  place : ∀ {m}, db.messages.lookup r = some m → c.Place m
  row : ∀ {n mv}, (n, mv) ∈ c.moves → ∃ m, db.messages.lookup r = some m

structure Chained (db : Db) : Prop where
  ids : ∀ {n mv}, db.moves.lookup n = some mv → 0 < n ∧ n < db.nextMoveId
  next : 0 < db.nextMoveId
  chain : ∀ r, ∃ c, At db r c

variable {db db' : Db} {r n k p : Nat} {m : Message} {mv pv cur : Move} {c c' : Chain}

/-! ## Placeholders and lookups -/

theorem placeholderUid_nonpos (n : Nat) : placeholderUid n ≤ 0 := by
  simp only [placeholderUid]
  omega

theorem natAbs_placeholderUid (n : Nat) : (placeholderUid n).natAbs = n := by
  simp [placeholderUid]

theorem eq_placeholderUid {u : Int} (h : u < 0) : u = placeholderUid u.natAbs := by
  simp only [placeholderUid]
  omega

theorem Db.pendingMove_some {account : Nat} :
    db.pendingMove account r = some (m, n, mv) ↔
      db.messages.lookup r = some m ∧ m.account = account ∧ m.uid < 0 ∧ n = m.uid.natAbs ∧
        db.moves.lookup n = some mv ∧ mv.messageRowId = r := by
  simp only [Db.pendingMove, Option.bind_eq_bind, Option.bind_eq_some_iff,
    Option.filter_eq_some_iff, Option.some.injEq, Prod.mk.injEq, decide_eq_true_eq]
  constructor
  · rintro ⟨m, ⟨hm, ha, hu⟩, mv, ⟨hmv, hr⟩, rfl, rfl, rfl⟩
    exact ⟨hm, ha, hu, rfl, hmv, hr⟩
  · rintro ⟨hm, ha, hu, rfl, hmv, hr⟩
    exact ⟨m, ⟨hm, ha, hu⟩, mv, ⟨hmv, hr⟩, rfl, rfl, rfl⟩

namespace At

theorem lookup (h : At db r c) (hm : (n, mv) ∈ c.moves) : db.moves.lookup n = some mv :=
  ((h.moves n mv).mpr hm).1

theorem rowId (h : At db r c) (hm : (n, mv) ∈ c.moves) : mv.messageRowId = r :=
  ((h.moves n mv).mpr hm).2

theorem mem (h : At db r c) (hn : db.moves.lookup n = some mv) (hr : mv.messageRowId = r) :
    (n, mv) ∈ c.moves := (h.moves n mv).mp ⟨hn, hr⟩

theorem only (h : At db r (.one n mv)) : db.moves.lookup n = some mv ∧ mv.messageRowId = r :=
  (h.moves n mv).mpr (by simp)

theorem first (h : At db r (.two p pv n mv)) :
    db.moves.lookup p = some pv ∧ pv.messageRowId = r := (h.moves p pv).mpr (by simp)

theorem second (h : At db r (.two p pv n mv)) :
    db.moves.lookup n = some mv ∧ mv.messageRowId = r := (h.moves n mv).mpr (by simp)

/-- The move a row holds the placeholder of is the last of its chain. -/
theorem pending {account : Nat} (h : At db r c)
    (hp : db.pendingMove account r = some (m, n, mv)) :
    db.messages.lookup r = some m ∧ m.uid = placeholderUid n ∧
      (c = .one n mv ∨ ∃ p pv, c = .two p pv n mv) := by
  obtain ⟨hm, -, hu, rfl, hn, hr⟩ := Db.pendingMove_some.mp hp
  have hpl := h.place hm
  have hmem := h.mem hn hr
  refine ⟨hm, eq_placeholderUid hu, ?_⟩
  cases c with
  | idle => simp at hmem
  | one k mv' =>
    simp only [Chain.mem_one, Prod.mk.injEq] at hmem
    obtain ⟨hk, rfl⟩ := hmem
    exact .inl (by rw [hk])
  | two p pv k mv' =>
    have hk : m.uid.natAbs = k := by rw [hpl.1, natAbs_placeholderUid]
    rw [hk] at hn ⊢
    obtain rfl := Option.some.inj (hn.symm.trans h.second.1)
    exact .inr ⟨p, pv, rfl⟩

/-- The row of a pending move has no uid of the server. -/
theorem uid_nonpos (h : At db r c) (hmem : (n, mv) ∈ c.moves)
    (hm : db.messages.lookup r = some m) : m.uid ≤ 0 := by
  have hpl := h.place hm
  cases c with
  | idle => simp at hmem
  | one k _ | two _ _ k _ => exact hpl.1 ▸ placeholderUid_nonpos k

/-- A row at a server location has no move. -/
theorem idle_of_pos (h : At db r c) (hm : db.messages.lookup r = some m) (hu : 0 < m.uid) :
    c = .idle := by
  apply Chain.eq_idle
  intro n mv hmem
  have hle := h.uid_nonpos hmem hm
  omega

/-- The states of a row that has no move. -/
theorem eq_idle (h : At db r c) (h' : At db r .idle) : c = .idle := by
  apply Chain.eq_idle
  intro n mv hmem
  exact Chain.mem_idle.mp (h'.mem (h.lookup hmem) (h.rowId hmem))

/-- A row whose moves and whose place are untouched stays where it was. -/
theorem frame (h : At db r c)
    (hm : ∀ m, (db'.messages.lookup r = some m → db.messages.lookup r = some m) ∧
      (m.uid ≤ 0 → db.messages.lookup r = some m → db'.messages.lookup r = some m))
    (hv : ∀ n mv, mv.messageRowId = r →
      (db'.moves.lookup n = some mv ↔ db.moves.lookup n = some mv)) : At db' r c where
  moves n mv := by
    rw [← h.moves]
    constructor
    · rintro ⟨hn, hr⟩
      exact ⟨(hv n mv hr).mp hn, hr⟩
    · rintro ⟨hn, hr⟩
      exact ⟨(hv n mv hr).mpr hn, hr⟩
  wellFormed := h.wellFormed
  place hm' := h.place ((hm _).1 hm')
  row hmem := by
    obtain ⟨m, hr⟩ := h.row hmem
    exact ⟨m, (hm m).2 (h.uid_nonpos hmem hr) hr⟩

end At

namespace Chained

/-- What names a predecessor is the second move of the predecessor's row. -/
theorem follows (h : Chained db) (hn : db.moves.lookup n = some mv)
    (hp : mv.predecessorId = some p) : ∃ pv, At db mv.messageRowId (.two p pv n mv) := by
  obtain ⟨c, hc⟩ := h.chain mv.messageRowId
  have hmem := hc.mem hn rfl
  have hwf := hc.wellFormed
  cases c with
  | idle => simp at hmem
  | one k mv' =>
    simp only [Chain.mem_one, Prod.mk.injEq] at hmem
    obtain ⟨rfl, rfl⟩ := hmem
    exact absurd (hwf.2.symm.trans hp) nofun
  | two q qv k mv' =>
    simp only [Chain.mem_two, Prod.mk.injEq] at hmem
    rcases hmem with ⟨rfl, rfl⟩ | ⟨rfl, rfl⟩
    · exact absurd (hwf.2.1.2.symm.trans hp) nofun
    · obtain rfl := Option.some.inj (hwf.2.2.2.1.symm.trans hp)
      exact ⟨qv, hc⟩

end Chained

/-! ## Writes that concern one row -/

/-- The moves of other rows are as before. -/
def SameMoves (r : Nat) (t t' : Table Nat Move) : Prop :=
  ∀ n mv, mv.messageRowId ≠ r → (t'.lookup n = some mv ↔ t.lookup n = some mv)

/-- The other rows are as before, but for some at a server location that may be gone. -/
def SameRows (r : Nat) (t t' : Table Nat Message) : Prop :=
  ∀ r' m, r' ≠ r → (t'.lookup r' = some m → t.lookup r' = some m) ∧
    (m.uid ≤ 0 → t.lookup r' = some m → t'.lookup r' = some m)

theorem SameMoves.refl {t : Table Nat Move} : SameMoves r t t := fun _ _ _ => .rfl

theorem SameMoves.insert {t : Table Nat Move} (hmv : mv.messageRowId = r)
    (hold : ∀ old, t.lookup n = some old → old.messageRowId = r) :
    SameMoves r t (t.insert n mv) := by
  intro k kv hr
  rw [Table.lookup_insert']
  split
  · next hk =>
    subst hk
    constructor
    · intro h
      cases h
      exact absurd hmv hr
    · intro h
      exact absurd (hold kv h) hr
  · rfl

theorem SameMoves.erase {t : Table Nat Move} (hold : ∀ old, t.lookup n = some old → old.messageRowId = r) :
    SameMoves r t (t.erase n) := by
  intro k kv hr
  rw [Table.lookup_erase']
  split
  · next hk =>
    subst hk
    constructor
    · nofun
    · intro h
      exact absurd (hold kv h) hr
  · rfl

theorem SameMoves.update {t t' : Table Nat Move} (h : SameMoves r t t') {q : Nat → Move → Bool}
    {f : Nat → Move → Move} (hf : ∀ n mv, (f n mv).messageRowId = mv.messageRowId)
    (hq : ∀ n mv, t'.lookup n = some mv → q n mv = true → mv.messageRowId = r) :
    SameMoves r t (Table.update t' q f) := by
  intro k kv hr
  rw [Table.lookup_update, Option.map_eq_some_iff, ← h k kv hr]
  constructor
  · rintro ⟨jv, hj, rfl⟩
    split
    · next hqj =>
      rw [if_pos hqj, hf] at hr
      exact absurd (hq k jv hj hqj) hr
    · exact hj
  · intro hk
    refine ⟨kv, hk, if_neg fun hqk => hr (hq k kv hk hqk)⟩

theorem SameMoves.delete {t : Table Nat Move} {q : Nat → Move → Bool}
    (hq : ∀ n mv, t.lookup n = some mv → q n mv = true → mv.messageRowId = r) :
    SameMoves r t (t.delete q) := by
  intro k kv hr
  rw [Table.lookup_delete, Option.filter_eq_some_iff]
  constructor
  · exact fun h => h.1
  · intro hk
    refine ⟨hk, ?_⟩
    cases hqk : q k kv with
    | false => rfl
    | true => exact absurd (hq k kv hk hqk) hr

theorem SameRows.refl {t : Table Nat Message} : SameRows r t t :=
  fun _ _ _ => ⟨fun h => h, fun _ h => h⟩

theorem SameRows.insert {t t' : Table Nat Message} (h : SameRows r t t') :
    SameRows r t (t'.insert r m) := by
  intro r' m' hr
  rw [AList.lookup_insert_ne hr]
  exact h r' m' hr

theorem SameRows.erase {t : Table Nat Message} : SameRows r t (t.erase r) := by
  intro r' m' hr
  rw [AList.lookup_erase_ne hr]
  exact SameRows.refl r' m' hr

theorem SameRows.freePlace {t : Table Nat Message} {account : Nat} {folder : String} {uid : Int}
    (hu : 0 < uid) : SameRows r t (Db.freePlace t account folder uid r) := by
  intro r' m' hr
  rw [Db.freePlace, Table.lookup_delete, Option.filter_eq_some_iff]
  refine ⟨fun h => h.1, fun hpos h => ⟨h, ?_⟩⟩
  have hne : m'.uid ≠ uid := by omega
  simp [hne]

/-- The row `r` goes to the state `c'`; nothing else happens, but that other rows may go. -/
structure RowWrite (db db' : Db) (r : Nat) (c' : Chain) : Prop where
  at' : At db' r c'
  moves : SameMoves r db.moves db'.moves
  rows : SameRows r db.messages db'.messages
  next : db.nextMoveId ≤ db'.nextMoveId
  ids : ∀ n mv, (n, mv) ∈ c'.moves → 0 < n ∧ n < db'.nextMoveId

theorem RowWrite.other {r' : Nat} (hw : RowWrite db db' r c') (hr : r' ≠ r) (hc : At db r' c) :
    At db' r' c :=
  hc.frame (fun m => hw.rows r' m hr) fun n mv he => hw.moves n mv (he ▸ hr)

theorem Chained.rowWrite (h : Chained db) (hw : RowWrite db db' r c') : Chained db' where
  ids {n mv} hn := by
    by_cases hr : mv.messageRowId = r
    · exact hw.ids n mv (hw.at'.mem hn hr)
    · have hid := h.ids ((hw.moves n mv hr).mp hn)
      exact ⟨hid.1, Nat.lt_of_lt_of_le hid.2 hw.next⟩
  next := Nat.lt_of_lt_of_le h.next hw.next
  chain r' := by
    by_cases hr : r' = r
    · exact ⟨c', hr ▸ hw.at'⟩
    · obtain ⟨c, hc⟩ := h.chain r'
      exact ⟨c, hw.other hr hc⟩

/-- The row's moves after one was deleted and some were updated. -/
theorem At.moves_erase_update (hc : At db r c) {q : Nat → Move → Bool} {f : Nat → Move → Move}
    (hf : ∀ k mv, (f k mv).messageRowId = mv.messageRowId) :
    ((Table.update (db.moves.erase n) q f).lookup k = some mv ∧ mv.messageRowId = r) ↔
      ∃ old, (k, old) ∈ c.moves ∧ k ≠ n ∧ mv = if q k old = true then f k old else old := by
  rw [Table.lookup_erase_update]
  constructor
  · rintro ⟨⟨hk, old, ho, rfl⟩, hr⟩
    refine ⟨old, hc.mem ho ?_, hk, rfl⟩
    split at hr
    · rwa [hf] at hr
    · exact hr
  · rintro ⟨old, hm, hk, rfl⟩
    refine ⟨⟨hk, old, hc.lookup hm, rfl⟩, ?_⟩
    split
    · rw [hf, hc.rowId hm]
    · exact hc.rowId hm

/-- The row's moves after one was inserted or replaced. -/
theorem At.moves_insert (hc : At db r c) (hcur : cur.messageRowId = r) :
    ((db.moves.insert n cur).lookup k = some mv ∧ mv.messageRowId = r) ↔
      (k, mv) = (n, cur) ∨ (k ≠ n ∧ (k, mv) ∈ c.moves) := by
  rw [Table.lookup_insert', ← hc.moves, Prod.mk.injEq]
  split
  · next hk => grind
  · next hk => simp [hk]

/-- A sync inserts a letter without a move at its server location. -/
theorem At.syncInsert (hc : At db r .idle) (hu : 0 < m.uid) :
    RowWrite db { db with messages := db.messages.insert r m } r .idle where
  at' := ⟨hc.moves, trivial, fun {m'} hm => by
    rw [AList.lookup_insert] at hm
    obtain rfl := Option.some.inj hm
    exact hu, fun h => (Chain.mem_idle.mp h).elim⟩
  moves := .refl
  rows := .insert .refl
  next := Nat.le_refl _
  ids := by simp

/-! ## Requests -/

theorem Db.enqueueRow_id {account now : Nat} {target : Target}
    (he : db.enqueueRow account r target now = some (n, db')) : n = db.nextMoveId := by
  simp only [Db.enqueueRow, Option.bind_eq_bind, Option.bind_eq_some_iff, Option.some.injEq,
    Prod.mk.injEq] at he
  obtain ⟨m, -, rfl, -⟩ := he
  rfl

theorem At.enqueueRow (h : Chained db) (hc : At db r c) {account now : Nat} {target : Target}
    (he : db.enqueueRow account r target now = some (n, db')) :
    c = .idle ∧ ∃ m, db.messages.lookup r = some m ∧ m.folder ≠ target.dest ∧
      RowWrite db db' r (.one n (Db.newMove account r m target now)) := by
  simp only [Db.enqueueRow, Option.bind_eq_bind, Option.bind_eq_some_iff,
    Option.filter_eq_some_iff, Option.some.injEq, Prod.mk.injEq, decide_eq_true_eq] at he
  obtain ⟨m, ⟨hm, -, hu, hd, -⟩, rfl, rfl⟩ := he
  obtain rfl := hc.idle_of_pos hm hu
  refine ⟨rfl, m, hm, hd, ⟨fun k kv => ?_, ⟨⟨m.uid, rfl, hu⟩, rfl⟩, fun hm' => ?_,
    fun _ => ⟨_, AList.lookup_insert _⟩⟩, .insert rfl fun old hk => absurd (h.ids hk).2 (Nat.lt_irrefl _), .insert .refl,
    Nat.le_succ _, ?_⟩
  · rw [hc.moves_insert rfl]
    simp
  · rw [AList.lookup_insert] at hm'
    obtain rfl := Option.some.inj hm'
    exact ⟨rfl, rfl⟩
  · intro k kv hk
    simp only [Chain.mem_one, Prod.mk.injEq] at hk
    obtain ⟨rfl, -⟩ := hk
    exact ⟨h.next, Nat.lt_succ_self _⟩

theorem At.cancelPending (h : Chained db) (hc : At db r c) {account : Nat} {dest : String}
    (he : db.cancelPending account r dest = some (cur, db')) :
    (∃ n, c = .one n cur ∧ cur.srcUid.isSome ∧ RowWrite db db' r .idle) ∨
    ∃ p pv n, c = .two p pv n cur ∧ cur.srcUid = none ∧
      RowWrite db db' r (.one p (cur.handFlags pv)) := by
  simp only [Db.cancelPending, Option.bind_eq_bind, Option.bind_eq_some_iff, Prod.exists,
    Option.ite_none_right_eq_some, Option.some.injEq, Prod.mk.injEq] at he
  obtain ⟨m, n, op, hp, backUid, hback, hcond, rfl, rfl⟩ := he
  obtain ⟨hm, hu, rfl | ⟨p, pv, rfl⟩⟩ := hc.pending hp
  · left
    obtain ⟨⟨u, hs, hpos⟩, hpred⟩ := hc.wellFormed
    rw [hs] at hback
    obtain rfl := Option.some.inj hback
    refine ⟨n, rfl, by simp [hs], ⟨fun k kv => ?_, trivial, fun hm' => ?_,
      fun h => (Chain.mem_idle.mp h).elim⟩, ?_, .insert .refl, Nat.le_refl _, by simp⟩
    · refine Iff.trans (hc.moves_erase_update ?_) ?_
      · exact fun _ _ => rfl
      simp only [Chain.mem_one, Chain.mem_idle, Prod.mk.injEq]
      grind
    · rw [AList.lookup_insert] at hm'
      obtain rfl := Option.some.inj hm'
      exact hpos
    · refine SameMoves.update (.erase fun old hk => ?_) (fun _ _ => rfl) fun k kv _ hq => ?_
      · exact Option.some.inj (hk.symm.trans hc.only.1) ▸ hc.only.2
      · simp [hpred] at hq
  · right
    obtain ⟨hne, ⟨⟨u, hs, hpos⟩, hpred⟩, hsn, hpn, hq, hsf⟩ := hc.wellFormed
    rw [hsn, hpn] at hback
    obtain rfl := Option.some.inj hback
    refine ⟨p, pv, n, rfl, hsn, ⟨fun k kv => ?_, ⟨⟨u, hs, hpos⟩, hpred⟩, fun hm' => ?_,
      fun _ => ⟨_, AList.lookup_insert _⟩⟩, ?_, .insert .refl, Nat.le_refl _, ?_⟩
    · refine Iff.trans (hc.moves_erase_update ?_) ?_
      · exact fun _ _ => rfl
      simp only [Chain.mem_two, Chain.mem_one, Prod.mk.injEq, hpn, Option.some.injEq,
        decide_eq_true_eq]
      grind
    · rw [AList.lookup_insert] at hm'
      obtain rfl := Option.some.inj hm'
      exact ⟨rfl, hsf⟩
    · refine SameMoves.update (.erase fun old hk => ?_) (fun _ _ => rfl) fun k kv hk hq => ?_
      · exact Option.some.inj (hk.symm.trans hc.second.1) ▸ hc.second.2
      · simp only [hpn, Option.some.injEq, decide_eq_true_eq] at hq
        subst hq
        rw [AList.lookup_erase_ne hne] at hk
        exact Option.some.inj (hk.symm.trans hc.first.1) ▸ hc.first.2
    · intro k kv hk
      simp only [Chain.mem_one, Prod.mk.injEq] at hk
      obtain ⟨rfl, -⟩ := hk
      exact h.ids hc.first.1

theorem At.retargetPending (h : Chained db) (hc : At db r c) {account now : Nat} {target : Target}
    (he : db.retargetPending account r target now = some db') :
    (∃ m n mv, c = .one n mv ∧ db.pendingMove account r = some (m, n, mv) ∧ mv.state = .queued ∧
      RowWrite db db' r (.one n (mv.retarget target now))) ∨
    ∃ p pv n mv, c = .two p pv n mv ∧ RowWrite db db' r (.two p pv n (mv.retarget target now)) := by
  simp only [Db.retargetPending, Option.bind_eq_bind, Option.bind_eq_some_iff, Prod.exists,
    Option.ite_none_right_eq_some, Option.some.injEq] at he
  obtain ⟨m, n, op, hp, ⟨hq, hd⟩, rfl⟩ := he
  obtain ⟨hm, hu, rfl | ⟨p, pv, rfl⟩⟩ := hc.pending hp
  · left
    refine ⟨m, n, op, rfl, hp, hq, ⟨fun k kv => ?_, hc.wellFormed, fun hm' => ?_,
      fun _ => ⟨_, AList.lookup_insert _⟩⟩, .insert hc.only.2 ?_, .insert .refl, Nat.le_refl _, ?_⟩
    · refine Iff.trans (hc.moves_insert ?_) ?_
      · exact hc.only.2
      simp only [Chain.mem_one, Prod.mk.injEq]
      grind
    · rw [AList.lookup_insert] at hm'
      obtain rfl := Option.some.inj hm'
      exact ⟨hu, rfl⟩
    · exact fun old hk => Option.some.inj (hk.symm.trans hc.only.1) ▸ hc.only.2
    · intro k kv hk
      simp only [Chain.mem_one, Prod.mk.injEq] at hk
      obtain ⟨rfl, -⟩ := hk
      exact h.ids hc.only.1
  · right
    refine ⟨p, pv, n, op, rfl, ⟨fun k kv => ?_, hc.wellFormed, fun hm' => ?_,
      fun _ => ⟨_, AList.lookup_insert _⟩⟩, .insert hc.second.2 ?_, .insert .refl, Nat.le_refl _, ?_⟩
    · refine Iff.trans (hc.moves_insert ?_) ?_
      · exact hc.second.2
      have hne := hc.wellFormed.1
      simp only [Chain.mem_two, Prod.mk.injEq]
      grind
    · rw [AList.lookup_insert] at hm'
      obtain rfl := Option.some.inj hm'
      exact ⟨hu, rfl⟩
    · exact fun old hk => Option.some.inj (hk.symm.trans hc.second.1) ▸ hc.second.2
    · intro k kv hk
      simp only [Chain.mem_two, Prod.mk.injEq] at hk
      rcases hk with ⟨rfl, -⟩ | ⟨rfl, -⟩
      · exact h.ids hc.first.1
      · exact h.ids hc.second.1

theorem At.followPending (h : Chained db) (hc : At db r c) {account now : Nat} {target : Target}
    (he : db.followPending account r target now = some db') :
    ∃ n mv, c = .one n mv ∧ mv.destFolder ≠ target.dest ∧
      RowWrite db db' r (.two n mv db.nextMoveId (Db.nextMove n mv target now)) := by
  simp only [Db.followPending, Option.bind_eq_bind, Option.bind_eq_some_iff, Prod.exists,
    Option.ite_none_right_eq_some, Option.some.injEq] at he
  obtain ⟨m, n, op, hp, ⟨hq, hd⟩, rfl⟩ := he
  obtain ⟨hm, hu, rfl | ⟨p, pv, rfl⟩⟩ := hc.pending hp
  · have hn := h.ids hc.only.1
    have hne : n ≠ db.nextMoveId := Nat.ne_of_lt hn.2
    refine ⟨n, op, rfl, (hc.place hm).2 ▸ hd, ⟨fun k kv => ?_,
      ⟨hne, hc.wellFormed, rfl, rfl, rfl, rfl⟩, fun hm' => ?_,
      fun _ => ⟨_, AList.lookup_insert _⟩⟩, .insert hc.only.2 ?_,
      .insert .refl, Nat.le_succ _, ?_⟩
    · refine Iff.trans (hc.moves_insert ?_) ?_
      · exact hc.only.2
      simp only [Chain.mem_one, Chain.mem_two, Prod.mk.injEq]
      grind
    · rw [AList.lookup_insert] at hm'
      obtain rfl := Option.some.inj hm'
      exact ⟨rfl, rfl⟩
    · exact fun old hk => absurd (h.ids hk).2 (Nat.lt_irrefl _)
    · intro k kv hk
      simp only [Chain.mem_two, Prod.mk.injEq] at hk
      rcases hk with ⟨rfl, -⟩ | ⟨rfl, -⟩
      · exact ⟨hn.1, Nat.lt_succ_of_lt hn.2⟩
      · exact ⟨h.next, Nat.lt_succ_self _⟩
  · exact absurd hc.wellFormed.2.2.2.2.1 hq

/-! ## The worker -/

theorem Db.rowAt_some : db.rowAt n cur = some m ↔
    db.messages.lookup cur.messageRowId = some m ∧ m.uid = placeholderUid n := by
  simp [Db.rowAt, Option.filter_eq_some_iff]

theorem Db.settle_lookup {newUid : Int} {folder : Option String} {now : Nat}
    {out : Db.Settled × Db} (h : db.settle n newUid folder now = some out) :
    ∃ mv, db.moves.lookup n = some mv := by
  simp only [Db.settle, Option.bind_eq_bind, Option.bind_eq_some_iff] at h
  obtain ⟨mv, hmv, -⟩ := h
  exact ⟨mv, hmv⟩

theorem Db.revert_lookup {now : Nat} {out : Db.Reverted × Db}
    (h : db.revert n now = some out) : ∃ mv, db.moves.lookup n = some mv := by
  simp only [Db.revert, Option.bind_eq_bind, Option.bind_eq_some_iff] at h
  obtain ⟨mv, hmv, -⟩ := h
  exact ⟨mv, hmv⟩

theorem Db.drop_lookup (h : db.drop n = some db') : ∃ mv, db.moves.lookup n = some mv := by
  simp only [Db.drop, Option.bind_eq_bind, Option.bind_eq_some_iff] at h
  obtain ⟨mv, hmv, -⟩ := h
  exact ⟨mv, hmv⟩

/-- The row of the only move waits at its placeholder. -/
theorem At.rowAt (hc : At db r (.one n cur)) : ∃ m, db.rowAt n cur = some m := by
  obtain ⟨m, hm⟩ := hc.row (Chain.mem_one.mpr rfl)
  exact ⟨m, Db.rowAt_some.mpr ⟨hc.only.2 ▸ hm, (hc.place hm).1⟩⟩

/-- Which move follows the first of two, and that nothing follows the last. -/
theorem At.follower (h : Chained db) (hc : At db r c) :
    (∀ {n mv}, c = .one n mv → db.follower n = none) ∧
    ∀ {p pv n mv}, c = .two p pv n mv → db.follower p = some (n, mv) := by
  have hfollow {n k : Nat} {mv kv : Move} (hf : db.follower n = some (k, kv))
      (hn : db.moves.lookup n = some mv) (hr : mv.messageRowId = r) : c = .two n mv k kv := by
    obtain ⟨hk, hp⟩ := (by simpa [Db.follower] using Table.find?_some hf :
      db.moves.lookup k = some kv ∧ kv.predecessorId = some n)
    obtain ⟨nv, hc'⟩ := h.follows hk hp
    obtain rfl := Option.some.inj (hc'.first.1.symm.trans hn)
    have hkr : kv.messageRowId = r := hc'.first.2.symm.trans hr
    have hm₁ := hc.mem hn hr
    have hm₂ := hc.mem hk hkr
    have hwf := hc'.wellFormed
    have hwfc := hc.wellFormed
    cases c with
    | idle => simp at hm₁
    | one j jv =>
      simp only [Chain.mem_one, Prod.mk.injEq] at hm₁ hm₂
      exact absurd (hm₁.1.trans hm₂.1.symm) hwf.1
    | two a av b bv =>
      simp only [Chain.mem_two, Prod.mk.injEq] at hm₁ hm₂
      rcases hm₁ with ⟨rfl, rfl⟩ | ⟨rfl, rfl⟩
      · rcases hm₂ with ⟨rfl, -⟩ | ⟨rfl, rfl⟩
        · exact absurd rfl hwf.1
        · rfl
      · obtain ⟨⟨u, hu, -⟩, -⟩ := hwf.2.1
        exact absurd (hu.symm.trans hwfc.2.2.1) nofun
  constructor
  · rintro n mv rfl
    cases hf : db.follower n with
    | none => rfl
    | some e => exact nomatch hfollow hf hc.only.1 hc.only.2
  · rintro p pv n mv rfl
    cases hf : db.follower p with
    | none =>
      have hne := Table.find?_none hf hc.second.1
      simp [hc.wellFormed.2.2.2.1] at hne
    | some e =>
      have he := hfollow hf hc.first.1 hc.first.2
      simp only [Chain.two.injEq, true_and] at he
      rw [he.1, he.2]

/-- Only the follower of `n` names it. -/
theorem SameMoves.erase_follow (h : Chained db) (hn : db.moves.lookup n = some cur)
    (hr : cur.messageRowId = r) {f : Nat → Move → Move}
    (hf : ∀ k mv, (f k mv).messageRowId = mv.messageRowId) :
    SameMoves r db.moves
      (Table.update (db.moves.erase n) (fun _ mv => mv.predecessorId = some n) f) := by
  refine .update (.erase fun old hk => ?_) hf fun k mv hk hq => ?_
  · exact Option.some.inj (hn.symm.trans hk) ▸ hr
  · rw [Table.lookup_erase'] at hk
    split at hk
    · cases hk
    · obtain ⟨nv, hc'⟩ := h.follows hk (of_decide_eq_true hq)
      obtain rfl := Option.some.inj (hc'.first.1.symm.trans hn)
      exact hc'.first.2.symm.trans hr

/-- A settle without a follower ends the chain: the row takes the uid, or it goes. -/
theorem At.settle_one (h : Chained db) (hc : At db r (.one n cur)) {newUid : Int}
    {folder : Option String} {now : Nat} {out : Db.Settled} (hu : 0 < newUid)
    (he : db.settle n newUid folder now = some (out, db')) :
    RowWrite db db' r .idle ∧ out.op = cur ∧ out.next = none ∧
      (out.row.isSome ↔ ¬(cur.dropRow ∧ folder.getD cur.destFolder = cur.destFolder)) := by
  obtain ⟨hn, hr⟩ := hc.only
  obtain ⟨row, hrow⟩ := hc.rowAt
  have hnone := (hc.follower h).1 rfl
  have hmoves {k : Nat} {mv : Move} : ((Table.update (db.moves.erase n)
      (fun _ mv => mv.predecessorId = some n)
      fun _ => Db.startFrom cur (folder.getD cur.destFolder) newUid now).lookup k = some mv ∧
        mv.messageRowId = r) ↔ (k, mv) ∈ Chain.idle.moves := by
    refine Iff.trans (hc.moves_erase_update ?_) ?_
    · exact fun _ _ => rfl
    simp only [Chain.mem_one, Chain.mem_idle, Prod.mk.injEq]
    grind
  have hsame := SameMoves.erase_follow h hn hr
    (f := fun _ => Db.startFrom cur (folder.getD cur.destFolder) newUid now) fun _ _ => rfl
  simp only [Db.settle, Option.bind_eq_bind, Option.bind_eq_some_iff, hn, Option.some.injEq,
    exists_eq_left', hnone] at he
  obtain ⟨hm, -⟩ := Db.rowAt_some.mp hrow
  rw [hr] at hm
  rw [hrow] at he
  simp only at he
  split at he
  · next hdrop =>
    simp only [Option.some.injEq, Prod.mk.injEq] at he
    obtain ⟨rfl, rfl⟩ := he
    refine ⟨⟨⟨fun _ _ => hmoves, trivial, fun hm' => ?_, fun h => (Chain.mem_idle.mp h).elim⟩,
      hsame, ?_, Nat.le_refl _, by simp⟩, rfl, rfl, by simp [hdrop]⟩
    · rw [hr, AList.lookup_erase] at hm'
      cases hm'
    · rw [hr]
      exact .erase
  · next hdrop =>
    simp only [Option.some.injEq, Prod.mk.injEq] at he
    obtain ⟨rfl, rfl⟩ := he
    refine ⟨⟨⟨fun _ _ => hmoves, trivial, fun hm' => ?_, fun h => (Chain.mem_idle.mp h).elim⟩,
      hsame, ?_, Nat.le_refl _, by simp⟩, rfl, rfl, by simp [hdrop]⟩
    · rw [hr, AList.lookup_insert] at hm'
      obtain rfl := Option.some.inj hm'
      exact hu
    · rw [hr]
      exact (SameRows.freePlace hu).insert

/-- A settle with a follower gives it its source. -/
theorem At.settle_two (h : Chained db) (hc : At db r (.two n cur k mv)) {newUid : Int}
    {folder : Option String} {now : Nat} {out : Db.Settled} (hu : 0 < newUid)
    (he : db.settle n newUid folder now = some (out, db')) :
    RowWrite db db' r
      (.one k (Db.startFrom cur (folder.getD cur.destFolder) newUid now mv)) ∧
      out.op = cur ∧ out.next = some (k, mv) ∧ out.row = none := by
  obtain ⟨hn, hr⟩ := hc.first
  have hsome := (hc.follower h).2 rfl
  have hwf := hc.wellFormed
  simp only [Db.settle, Option.bind_eq_bind, Option.bind_eq_some_iff, hn, Option.some.injEq,
    exists_eq_left', hsome, Prod.mk.injEq] at he
  obtain ⟨rfl, rfl⟩ := he
  refine ⟨⟨⟨fun j jv => ?_, ⟨⟨newUid, rfl, hu⟩, rfl⟩, fun hm => hc.place hm,
      fun _ => hc.row (Chain.mem_two.mpr (.inl rfl))⟩,
    .erase_follow h hn hr fun _ _ => rfl, .refl, Nat.le_refl _, ?_⟩, rfl, rfl, rfl⟩
  · refine Iff.trans (hc.moves_erase_update ?_) ?_
    · exact fun _ _ => rfl
    have hp := hwf.2.2.2.1
    have hne := hwf.1
    simp only [Chain.mem_two, Chain.mem_one, Prod.mk.injEq, decide_eq_true_eq]
    grind
  · intro j jv hj
    simp only [Chain.mem_one, Prod.mk.injEq] at hj
    obtain ⟨rfl, -⟩ := hj
    exact h.ids hc.second.1

/-- A revert without a follower brings the row back to the letter. -/
theorem At.revert_one (h : Chained db) (hc : At db r (.one n cur)) {now : Nat}
    {out : Db.Reverted} (he : db.revert n now = some (out, db')) :
    RowWrite db db' r .idle ∧ out.op = cur ∧ out.next = none ∧ out.row.isSome := by
  obtain ⟨hn, hr⟩ := hc.only
  obtain ⟨⟨u, hs, hpos⟩, hpred⟩ := hc.wellFormed
  obtain ⟨row, hrow⟩ := hc.rowAt
  have hnone := (hc.follower h).1 rfl
  simp only [Db.revert, Option.bind_eq_bind, Option.bind_eq_some_iff, hn, Option.some.injEq,
    exists_eq_left', hnone, hs] at he
  rw [hrow] at he
  obtain ⟨rfl, rfl⟩ := he
  refine ⟨⟨⟨fun k mv => ?_, trivial, fun hm' => ?_, fun h => (Chain.mem_idle.mp h).elim⟩,
    .erase_follow h hn hr fun _ _ => rfl, ?_, Nat.le_refl _, by simp⟩, rfl, rfl, rfl⟩
  · refine Iff.trans (hc.moves_erase_update ?_) ?_
    · exact fun _ _ => rfl
    simp only [Chain.mem_one, Chain.mem_idle, Prod.mk.injEq]
    grind
  · rw [hr, AList.lookup_insert] at hm'
    obtain rfl := Option.some.inj hm'
    exact hpos
  · rw [hr]
    exact (SameRows.freePlace hpos).insert

/-- A revert with a follower lets it start where the reverted move did. -/
def Move.restart (cur : Move) (now : Nat) (next : Move) : Move :=
  { next with
    srcFolder := cur.srcFolder, srcUid := cur.srcUid, predecessorId := cur.predecessorId
    updatedAt := now }

theorem At.revert_two (h : Chained db) (hc : At db r (.two n cur k mv)) {now : Nat}
    {out : Db.Reverted} (he : db.revert n now = some (out, db')) :
    RowWrite db db' r (.one k (cur.restart now mv)) ∧ out.op = cur ∧ out.next = some (k, mv) ∧
      out.row = none := by
  obtain ⟨hn, hr⟩ := hc.first
  have hsome := (hc.follower h).2 rfl
  have hwf := hc.wellFormed
  simp only [Db.revert, Option.bind_eq_bind, Option.bind_eq_some_iff, hn, Option.some.injEq,
    exists_eq_left', hsome, Prod.mk.injEq] at he
  obtain ⟨rfl, rfl⟩ := he
  refine ⟨⟨⟨fun j jv => ?_, hwf.2.1, fun hm => hc.place hm,
    fun _ => hc.row (Chain.mem_two.mpr (.inl rfl))⟩, .erase_follow h hn hr fun _ _ => rfl, .refl, Nat.le_refl _, ?_⟩, rfl, rfl, rfl⟩
  · refine Iff.trans (hc.moves_erase_update ?_) ?_
    · exact fun _ _ => rfl
    have hp := hwf.2.2.2.1
    have hne := hwf.1
    simp only [Chain.mem_two, Chain.mem_one, Prod.mk.injEq, decide_eq_true_eq, Move.restart]
    grind
  · intro j jv hj
    simp only [Chain.mem_one, Prod.mk.injEq] at hj
    obtain ⟨rfl, -⟩ := hj
    exact h.ids hc.second.1

theorem At.moves_delete (hc : At db r c) {q : Nat → Move → Bool} :
    ((db.moves.delete q).lookup k = some mv ∧ mv.messageRowId = r) ↔
      (k, mv) ∈ c.moves ∧ q k mv = false := by
  rw [Table.lookup_delete, Option.filter_eq_some_iff, ← hc.moves]
  simp only [Bool.not_eq_true']
  exact ⟨fun h => ⟨⟨h.1.1, h.2⟩, h.1.2⟩, fun h => ⟨⟨h.1.1, h.2⟩, h.1.2⟩⟩

/-- A drop ends the chain and takes the row along. -/
theorem At.drop (h : Chained db) (hc : At db r c) (hn : db.moves.lookup n = some cur)
    (hr : cur.messageRowId = r) (hs : cur.srcUid ≠ none) (he : db.drop n = some db') :
    RowWrite db db' r .idle ∧ db'.messages.lookup r = none := by
  subst hr
  have hmem := hc.mem hn rfl
  have hwf := hc.wellFormed
  -- every move of the row is the dropped one or follows it
  have hgone : ∀ k mv, (k, mv) ∈ c.moves → k = n ∨ mv.predecessorId = some n := by
    intro k mv hk
    cases c with
    | idle => simp at hmem
    | one j jv =>
      simp only [Chain.mem_one, Prod.mk.injEq] at hmem hk
      exact .inl (hk.1.trans hmem.1.symm)
    | two p pv j jv =>
      simp only [Chain.mem_two, Prod.mk.injEq] at hmem hk
      rcases hmem with ⟨rfl, rfl⟩ | ⟨rfl, rfl⟩
      · rcases hk with ⟨rfl, -⟩ | ⟨-, rfl⟩
        · exact .inl rfl
        · exact .inr hwf.2.2.2.1
      · exact absurd hwf.2.2.1 hs
  simp only [Db.drop, Option.bind_eq_bind, Option.bind_eq_some_iff, hn, Option.some.injEq,
    exists_eq_left'] at he
  subst he
  have hrow : (if ((db.messages.lookup cur.messageRowId).any fun m =>
      (db.moves.select fun k mv => k = n ∨ mv.predecessorId = some n).any fun e =>
        m.uid = placeholderUid e.1) = true then db.messages.erase cur.messageRowId else db.messages).lookup cur.messageRowId =
      none := by
    split
    · exact AList.lookup_erase _ _
    · next hno =>
      cases hm : db.messages.lookup cur.messageRowId with
      | none => rfl
      | some m =>
        refine absurd ?_ hno
        have hpl := hc.place hm
        have hlast : ∃ e : Nat × Move, e ∈ c.moves ∧ m.uid = placeholderUid e.1 := by
          cases c with
          | idle => simp at hmem
          | one j jv => exact ⟨(j, jv), by simp, hpl.1⟩
          | two p pv j jv => exact ⟨(j, jv), by simp, hpl.1⟩
        obtain ⟨e, hem, heu⟩ := hlast
        simp only [hm, Option.any_some, List.any_eq_true, decide_eq_true_eq]
        refine ⟨e, ?_, heu⟩
        obtain ⟨k, mv⟩ := e
        rw [Table.mem_select]
        exact ⟨hc.lookup hem, by simpa using hgone k mv hem⟩
  refine ⟨⟨⟨fun k mv => ?_, trivial, fun hm => ?_, fun h => (Chain.mem_idle.mp h).elim⟩,
    .delete fun k mv hk hq => ?_, ?_, Nat.le_refl _, by simp⟩, hrow⟩
  · refine Iff.trans hc.moves_delete ?_
    simp only [Chain.mem_idle, iff_false]
    rintro ⟨hk, hq⟩
    exact absurd (hgone k mv hk) (by simpa using hq)
  · exact absurd (hrow.symm.trans hm) nofun
  · rcases of_decide_eq_true hq with rfl | hp
    · exact Option.some.inj (hn.symm.trans hk) ▸ rfl
    · obtain ⟨nv, hc'⟩ := h.follows hk hp
      obtain rfl := Option.some.inj (hc'.first.1.symm.trans hn)
      exact hc'.first.2.symm
  · dsimp only
    split
    · exact .erase
    · exact .refl

/-! ## Writes that change no link -/

/-- The letter and where it goes are the same. -/
structure SameAim (mv mv' : Move) : Prop where
  account : mv'.account = mv.account
  messageRowId : mv'.messageRowId = mv.messageRowId
  messageIdHeader : mv'.messageIdHeader = mv.messageIdHeader
  destFolder : mv'.destFolder = mv.destFolder
  dropRow : mv'.dropRow = mv.dropRow

/-- What the worker writes on its own moves. -/
structure SameLinks (mv mv' : Move) : Prop extends SameAim mv mv' where
  srcFolder : mv'.srcFolder = mv.srcFolder
  srcUid : mv'.srcUid = mv.srcUid
  predecessorId : mv'.predecessorId = mv.predecessorId
  state : mv.srcUid = none → mv.state = .queued → mv'.state = .queued

theorem SameLinks.refl : SameLinks mv mv := ⟨⟨rfl, rfl, rfl, rfl, rfl⟩, rfl, rfl, rfl, fun _ h => h⟩

def Chain.map (f : Nat → Move → Move) : Chain → Chain
  | idle => idle
  | one n mv => one n (f n mv)
  | two p pv n mv => two p (f p pv) n (f n mv)

theorem Chain.mem_map {f : Nat → Move → Move} {e : Nat × Move} :
    e ∈ (c.map f).moves ↔ ∃ mv, (e.1, mv) ∈ c.moves ∧ e.2 = f e.1 mv := by
  obtain ⟨k, kv⟩ := e
  cases c <;> simp only [Chain.map, mem_idle, mem_one, mem_two, Prod.mk.injEq] <;> grind

theorem At.relink (hc : At db r c) {f : Nat → Move → Move}
    (hf : ∀ n mv, db.moves.lookup n = some mv → SameLinks mv (f n mv))
    (hm : db'.messages = db.messages) (hv : ∀ n, db'.moves.lookup n = (db.moves.lookup n).map (f n)) :
    At db' r (c.map f) where
  moves n mv := by
    rw [hv, Option.map_eq_some_iff, Chain.mem_map]
    constructor
    · rintro ⟨⟨old, hn, rfl⟩, hr⟩
      exact ⟨old, hc.mem hn ((hf n old hn).messageRowId ▸ hr), rfl⟩
    · rintro ⟨old, hmem, he⟩
      dsimp only at hmem he
      subst he
      have hn := hc.lookup hmem
      exact ⟨⟨old, hn, rfl⟩, (hf n old hn).messageRowId.trans (hc.rowId hmem)⟩
  wellFormed := by
    have hstarts {n mv} (hn : db.moves.lookup n = some mv) (hs : Chain.Starts mv) :
        Chain.Starts (f n mv) := by
      have hl := hf n mv hn
      exact ⟨hl.srcUid ▸ hs.1, hl.predecessorId.trans hs.2⟩
    have hwf := hc.wellFormed
    cases c with
    | idle => trivial
    | one n mv => exact hstarts hc.only.1 hwf
    | two p pv n mv =>
      have hl := hf n mv hc.second.1
      obtain ⟨hne, hs, hsu, hp, hq, hsf⟩ := hwf
      refine ⟨hne, hstarts hc.first.1 hs, hl.srcUid.trans hsu, hl.predecessorId.trans hp,
        hl.state hsu hq, ?_⟩
      rw [hl.srcFolder, hsf, (hf p pv hc.first.1).destFolder]
  place {m} hm' := by
    have hpl := hc.place (hm ▸ hm')
    cases c with
    | idle => exact hpl
    | one n mv => exact ⟨hpl.1, hpl.2.trans (hf n mv hc.only.1).destFolder.symm⟩
    | two p pv n mv => exact ⟨hpl.1, hpl.2.trans (hf n mv hc.second.1).destFolder.symm⟩
  row hmem := by
    rw [hm]
    obtain ⟨mv, hmem, -⟩ := Chain.mem_map.mp hmem
    exact hc.row hmem

theorem Chained.relink (h : Chained db) {f : Nat → Move → Move}
    (hf : ∀ n mv, db.moves.lookup n = some mv → SameLinks mv (f n mv))
    (hm : db'.messages = db.messages) (hid : db'.nextMoveId = db.nextMoveId)
    (hv : ∀ n, db'.moves.lookup n = (db.moves.lookup n).map (f n)) : Chained db' where
  ids {n mv} hn := by
    rw [hv, Option.map_eq_some_iff] at hn
    obtain ⟨old, hn, -⟩ := hn
    exact hid ▸ h.ids hn
  next := hid ▸ h.next
  chain r := by
    obtain ⟨c, hc⟩ := h.chain r
    exact ⟨c.map f, hc.relink hf hm hv⟩

theorem Db.updateMoves_lookup {ids : List Nat} {q : Move → Bool} {f : Move → Move} :
    (db.updateMoves ids q f).moves.lookup n =
      (db.moves.lookup n).map fun mv => if n ∈ ids ∧ q mv = true then f mv else mv := by
  simp only [Db.updateMoves, Table.lookup_update, Bool.decide_and, Bool.and_eq_true,
    decide_eq_true_eq, Bool.decide_eq_true]

theorem SameLinks.ite {q : Prop} [Decidable q] {f : Move → Move} (hf : q → SameLinks mv (f mv)) :
    SameLinks mv (if q then f mv else mv) := by
  split
  · next h => exact hf h
  · exact .refl

end MailExpert.MoveQueue
