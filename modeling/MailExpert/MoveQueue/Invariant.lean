import MailExpert.MoveQueue.Chain

/-!
# No row is left at a placeholder

`Chain.Step` is the life of one row's moves, whatever else the tables hold, and `step_tables` says
that every step of the queue takes single rows through it, or writes no link at all. An invariant
of the tables is then shown once for each of its constructors.

The first one is `Inv`: every row is in a well-formed chain, and the moves in the worker's hands
have a source, which they keep until they end.
-/

namespace MailExpert.MoveQueue

/-- What a step does to the moves of the row `r`. -/
inductive Chain.Step (l : Label) (db : Db) (r : Nat) : Chain → Chain → Prop
  | synced : l = .syncInsert r m → Step l db r idle idle
  | cancelled : l = .cancelPending account r dest → Step l db r (one n mv) idle
  | cancelledNext : l = .cancelPending account r dest →
    Step l db r (two p pv n mv) (one p (mv.handFlags pv))
  | retargeted : l = .retargetPending account r target now →
    db.pendingMove account r = some (m, n, mv) → mv.state = .queued →
    Step l db r (one n mv) (one n (mv.retarget target now))
  | retargetedNext : l = .retargetPending account r target now →
    Step l db r (two p pv n mv) (two p pv n (mv.retarget target now))
  | followed : l = .followPending account r target now → mv.destFolder ≠ target.dest →
    Step l db r (one n mv) (two n mv db.nextMoveId (Db.nextMove n mv target now))
  | settled : l = .settle n newUid folder store now → Step l db r (one n mv) idle
  | settledNext : l = .settle n newUid folder store now →
    Step l db r (two n mv k kv) (one k (Db.startFrom mv (folder.getD mv.destFolder) newUid now kv))
  | reverted : l = .revert n now → Step l db r (one n mv) idle
  | revertedNext : l = .revert n now → Step l db r (two n mv k kv) (one k (mv.restart now kv))
  | dropped : l = .drop n → (n, mv) ∈ c.moves → Step l db r c idle

variable {s s' : State} {l : Label} {db db' : Db} {r n k p : Nat} {m : Message} {mv : Move}
  {c c' : Chain}

/-! ## Writes on the worker's moves -/

/-- Some moves were written, no link of them. -/
def Relinked (db db' : Db) : Prop :=
  ∃ f : Nat → Move → Move, (∀ n mv, db.moves.lookup n = some mv → SameLinks mv (f n mv)) ∧
    db'.messages = db.messages ∧ db'.nextMoveId = db.nextMoveId ∧
    ∀ n, db'.moves.lookup n = (db.moves.lookup n).map (f n)

theorem SameLinks.trans {mv₁ mv₂ mv₃ : Move} (h : SameLinks mv₁ mv₂) (h' : SameLinks mv₂ mv₃) :
    SameLinks mv₁ mv₃ where
  account := h'.account.trans h.account
  messageRowId := h'.messageRowId.trans h.messageRowId
  messageIdHeader := h'.messageIdHeader.trans h.messageIdHeader
  dropRow := h'.dropRow.trans h.dropRow
  srcFolder := h'.srcFolder.trans h.srcFolder
  srcUid := h'.srcUid.trans h.srcUid
  destFolder := h'.destFolder.trans h.destFolder
  predecessorId := h'.predecessorId.trans h.predecessorId
  state hs hq := h'.state (h.srcUid.trans hs) (h.state hs hq)

theorem SameLinks.setFlag {flag : Flag} {value : Bool} : SameLinks mv (mv.setFlag flag value) := by
  cases flag <;> exact ⟨⟨rfl, rfl, rfl, rfl, rfl⟩, rfl, rfl, rfl, fun _ h => h⟩

theorem Relinked.refl : Relinked db db :=
  ⟨fun _ mv => mv, fun _ _ _ => .refl, rfl, rfl, fun n => by simp⟩

theorem Relinked.trans {db₁ db₂ db₃ : Db} (h : Relinked db₁ db₂) (h' : Relinked db₂ db₃) :
    Relinked db₁ db₃ := by
  obtain ⟨f, hf, hm, hn, hv⟩ := h
  obtain ⟨g, hg, hm', hn', hv'⟩ := h'
  refine ⟨fun n mv => g n (f n mv), fun n mv hmv => ?_, hm'.trans hm, hn'.trans hn, fun n => ?_⟩
  · have hlink := hg n (f n mv) (by simp [hv, hmv])
    exact (hf n mv hmv).trans hlink
  · rw [hv', hv, Option.map_map]
    rfl

/-- Every move after such a write was there before, with the same links. -/
theorem Relinked.lookup (h : Relinked db db') (hn : db'.moves.lookup n = some mv) :
    ∃ old, db.moves.lookup n = some old ∧ SameLinks old mv := by
  obtain ⟨f, hf, -, -, hv⟩ := h
  rw [hv, Option.map_eq_some_iff] at hn
  obtain ⟨old, hold, rfl⟩ := hn
  exact ⟨old, hold, hf n old hold⟩

theorem Chained.relinked (h : Chained db) (hr : Relinked db db') : Chained db' := by
  obtain ⟨f, hf, hm, hid, hv⟩ := hr
  exact h.relink hf hm hid hv

theorem Relinked.updateMoves {ids : List Nat} {q : Move → Bool} {f : Move → Move}
    (h : db' = db.updateMoves ids q f) (hf : ∀ mv, q mv = true → SameLinks mv (f mv)) :
    Relinked db db' := by
  subst h
  exact ⟨fun n mv => if n ∈ ids ∧ q mv = true then f mv else mv,
    fun _ mv _ => .ite fun hq => hf mv hq.2, rfl, rfl, fun _ => Db.updateMoves_lookup⟩

/-- `deferFlags` writes one column of the pending move of the row. -/
theorem Db.deferFlag_some {flag : Flag} {value : Bool} :
    db.deferFlag r flag value = some db' ↔ ∃ m mv, db.messages.lookup r = some m ∧ m.uid < 0 ∧
      db.moves.lookup m.uid.natAbs = some mv ∧ mv.messageRowId = r ∧
      db' = { db with moves := db.moves.insert m.uid.natAbs (mv.setFlag flag value) } := by
  simp only [Db.deferFlag, Option.bind_eq_bind, Option.bind_eq_some_iff,
    Option.filter_eq_some_iff, Option.some.injEq, decide_eq_true_eq]
  constructor
  · rintro ⟨m, ⟨hm, hu⟩, mv, ⟨hmv, hr⟩, rfl⟩
    exact ⟨m, mv, hm, hu, hmv, hr, rfl⟩
  · rintro ⟨m, mv, hm, hu, hmv, hr, rfl⟩
    exact ⟨m, ⟨hm, hu⟩, mv, ⟨hmv, hr⟩, rfl⟩

theorem Relinked.deferFlag {flag : Flag} {value : Bool}
    (h : db.deferFlag r flag value = some db') : Relinked db db' := by
  obtain ⟨m, mv, -, -, hmv, -, rfl⟩ := Db.deferFlag_some.mp h
  refine ⟨fun n mv => if n = m.uid.natAbs then mv.setFlag flag value else mv, fun n mv _ => ?_, rfl,
    rfl, fun n => ?_⟩
  · dsimp only
    split
    · exact .setFlag
    · exact .refl
  · rw [Table.lookup_insert']
    split
    · next hn =>
      subst hn
      rw [hmv]
      simp
    · next hn => simp only [hn, if_false, Option.map_id']

theorem relinked_deferFlags (rowIds : List Nat) (flag : Flag) (value : Bool) (s : State) :
    Relinked s.db (rowIds.foldl (fun s r => deferFlag s r flag value) s).db := by
  induction rowIds generalizing s with
  | nil => exact .refl
  | cons r rowIds ih =>
    have h : Relinked s.db (deferFlag s r flag value).db := by
      rw [deferFlag]
      split
      · next h => exact .deferFlag h
      · exact .refl
    exact h.trans (ih _)

/-! ## The rows of one step -/

/-- A letter a sync inserts has no move. -/
theorem At.of_unmoved (hn : db.messages.lookup r = none)
    (hno : (db.moves.select fun _ mv => mv.messageRowId = r) = []) : At db r .idle := by
  refine ⟨fun n mv => ?_, trivial, fun hm => absurd (hn.symm.trans hm) nofun,
    fun h => (Chain.mem_idle.mp h).elim⟩
  simp only [Chain.mem_idle, iff_false]
  rintro ⟨hmv, hr⟩
  have hmem : (n, mv) ∈ db.moves.select fun _ mv => mv.messageRowId = r :=
    Table.mem_select.mpr ⟨hmv, decide_eq_true hr⟩
  rw [hno] at hmem
  cases hmem

/-- What holds of the tables through every row that `enqueue` queues holds after the statement. -/
theorem Chained.enqueueRows {P : Db → Prop} {account now : Nat} {target : Target}
    (hP : ∀ db db' r m, Chained db → P db → At db r .idle → m.folder ≠ target.dest →
      RowWrite db db' r (.one db.nextMoveId (Db.newMove account r m target now)) → P db')
    (rowIds : List Nat) (h : Chained db) (hdb : P db) :
    Chained (db.enqueueRows account rowIds target now) ∧
      P (db.enqueueRows account rowIds target now) := by
  induction rowIds generalizing db with
  | nil => exact ⟨h, hdb⟩
  | cons r rowIds ih =>
    rw [Db.enqueueRows, List.foldl_cons]
    cases he : db.enqueueRow account r target now with
    | none => exact ih h hdb
    | some e =>
      obtain ⟨n, db'⟩ := e
      obtain ⟨c, hc⟩ := h.chain r
      have hn : n = db.nextMoveId := Db.enqueueRow_id he
      obtain ⟨rfl, m, -, hd, hw⟩ := hc.enqueueRow h he
      subst hn
      exact ih (h.rowWrite hw) (hP db db' r m h hdb hc hd hw)

/-- The moves in the worker's hands: they exist no more, or they have a source. -/
def Held (db : Db) (held : List Nat) : Prop :=
  ∀ n ∈ held, n < db.nextMoveId ∧ ∀ mv, db.moves.lookup n = some mv → mv.srcUid ≠ none

structure Inv (s : State) : Prop where
  chained : Chained s.db
  held : Held s.db s.held

/-- A held move starts its chain. -/
theorem Inv.starts (h : Inv s) (hn : n ∈ s.held) (hmv : s.db.moves.lookup n = some mv)
    (hc : At s.db mv.messageRowId c) : c = .one n mv ∨ ∃ k kv, c = .two n mv k kv := by
  have hmem := hc.mem hmv rfl
  cases c with
  | idle => simp at hmem
  | one k kv =>
    simp only [Chain.mem_one, Prod.mk.injEq] at hmem
    obtain ⟨rfl, rfl⟩ := hmem
    exact .inl rfl
  | two p pv k kv =>
    simp only [Chain.mem_two, Prod.mk.injEq] at hmem
    rcases hmem with ⟨rfl, rfl⟩ | ⟨rfl, rfl⟩
    · exact .inr ⟨k, kv, rfl⟩
    · exact absurd hc.wellFormed.2.2.1 ((h.held n hn).2 mv hmv)

/-- The step is a write of the worker on moves it holds. -/
def Label.onHeldMoves : Label → Bool
  | .claim .. | .markSent .. | .release .. | .recover .. | .markAwaiting .. | .retryLater ..
  | .requeueAwaiting .. | .lookAgainLater .. => true
  | _ => false

/-- Such a write changes neither a link nor a flag of a move. -/
theorem step_updateMoves (hl : l.onHeldMoves = true) (h : step s l = some s') :
    ∃ ids q f held, (∀ mv, q mv = true → SameLinks mv (f mv)) ∧
      (∀ mv flag, (f mv).flag flag = mv.flag flag) ∧
      s' = { s with db := s.db.updateMoves ids q f, held } := by
  have hflag {f : Move → Move} (hs : ∀ mv, (f mv).setSeen = mv.setSeen)
      (hf : ∀ mv, (f mv).setFlagged = mv.setFlagged) (mv : Move) (flag : Flag) :
      (f mv).flag flag = mv.flag flag := by
    cases flag
    · exact hs mv
    · exact hf mv
  have hown {ids : List Nat} {q : Move → Bool} {f : Move → Move} {held : List Nat}
      (hs' : s' = { s with db := s.db.updateMoves ids q f, held })
      (hlink : ∀ mv, q mv = true → SameLinks mv (f mv))
      (hs : ∀ mv, (f mv).setSeen = mv.setSeen) (hf : ∀ mv, (f mv).setFlagged = mv.setFlagged) :
      ∃ ids q f held, (∀ mv, q mv = true → SameLinks mv (f mv)) ∧
        (∀ mv flag, (f mv).flag flag = mv.flag flag) ∧
        s' = { s with db := s.db.updateMoves ids q f, held } :=
    ⟨ids, q, f, held, hlink, hflag hs hf, hs'⟩
  cases l with
  | claim ids now =>
    simp only [step, Option.some.injEq] at h
    refine hown h.symm (fun mv hq => ⟨⟨rfl, rfl, rfl, rfl, rfl⟩, rfl, rfl, rfl, fun hs _ => ?_⟩)
      (fun _ => rfl) fun _ => rfl
    simp [hs] at hq
  | markSent ids now =>
    simp only [step, Option.some.injEq] at h
    exact hown h.symm (fun mv _ => ⟨⟨rfl, rfl, rfl, rfl, rfl⟩, rfl, rfl, rfl, fun _ h => h⟩)
      (fun _ => rfl) fun _ => rfl
  | release ids now =>
    simp only [step, Option.some.injEq] at h
    exact hown h.symm (fun mv _ => ⟨⟨rfl, rfl, rfl, rfl, rfl⟩, rfl, rfl, rfl, fun _ _ => rfl⟩)
      (fun _ => rfl) fun _ => rfl
  | recover ids delayMs now =>
    simp only [step, Option.some.injEq] at h
    refine hown h.symm (fun mv hq => ⟨⟨rfl, rfl, rfl, rfl, rfl⟩, rfl, rfl, rfl, fun _ hs => ?_⟩)
      (fun _ => rfl) fun _ => rfl
    simp [hs] at hq
  | markAwaiting n now =>
    simp only [step, Option.some.injEq] at h
    refine hown h.symm (fun mv hq => ⟨⟨rfl, rfl, rfl, rfl, rfl⟩, rfl, rfl, rfl, fun _ hs => ?_⟩)
      (fun _ => rfl) fun _ => rfl
    simp [hs] at hq
  | retryLater n attempts error unclear now =>
    simp only [step, Option.some.injEq] at h
    refine hown h.symm (fun mv hq => ⟨⟨rfl, rfl, rfl, rfl, rfl⟩, rfl, rfl, rfl, fun _ hs => ?_⟩)
      (fun _ => rfl) fun _ => rfl
    simp [hs] at hq
  | requeueAwaiting n attempts now =>
    simp only [step, Option.some.injEq] at h
    exact hown h.symm (fun mv _ => ⟨⟨rfl, rfl, rfl, rfl, rfl⟩, rfl, rfl, rfl, fun _ _ => rfl⟩)
      (fun _ => rfl) fun _ => rfl
  | lookAgainLater n now =>
    simp only [step, Option.some.injEq] at h
    exact hown h.symm (fun mv _ => ⟨⟨rfl, rfl, rfl, rfl, rfl⟩, rfl, rfl, rfl, fun _ h => h⟩)
      (fun _ => rfl) fun _ => rfl
  | _ => cases hl

/-- The flag store after a settle leaves the tables alone. -/
theorem settle_db {newUid : Int} {folder : Option String} {store : Store} {now : Nat}
    (h : settle s n newUid folder store now = some s') :
    ∃ out, s.db.settle n newUid folder now = some (out, s'.db) := by
  simp only [settle, Option.map_eq_some_iff, Prod.exists] at h
  obtain ⟨out, db, he, rfl⟩ := h
  refine ⟨out, ?_⟩
  split
  · cases store <;> exact he
  · exact he

/-- **What a step does to the tables.** It queues rows one after another, takes one row from a
chain to the next, or writes no link. -/
theorem step_tables (hinv : Inv s) (h : step s l = some s') {P : Db → Prop}
    (relinked : ∀ db', Relinked s.db db' → P db')
    (enqueued : ∀ account rowIds target now, l = .enqueueRows account rowIds target now →
      P (s.db.enqueueRows account rowIds target now))
    (row : ∀ db' r c c', At s.db r c → Chain.Step l s.db r c c' →
      RowWrite s.db db' r c' → P db') : P s'.db := by
  have hch := hinv.chained
  cases l with
  | syncInsert id m =>
    simp only [step, Option.ite_none_right_eq_some, Option.some.injEq] at h
    obtain ⟨⟨hn, hu, -, hno⟩, rfl⟩ := h
    have hat := At.of_unmoved hn hno
    exact row _ id _ _ hat (.synced rfl) (hat.syncInsert hu)
  | storeFlag rowId flag value ok =>
    simp only [step, Option.bind_eq_some_iff, Option.ite_none_right_eq_some,
      Option.some.injEq] at h
    obtain ⟨m, -, -, rfl⟩ := h
    exact relinked _ .refl
  | enqueueRows account rowIds target now =>
    simp only [step, Option.some.injEq] at h
    subst h
    exact enqueued account rowIds target now rfl
  | cancelPending account r dest =>
    simp only [step, cancelPending, Option.map_eq_some_iff, Prod.exists] at h
    obtain ⟨op, db, he, rfl⟩ := h
    obtain ⟨c, hc⟩ := hch.chain r
    rcases hc.cancelPending hch he with ⟨n, rfl, -, hw⟩ | ⟨p, pv, n, rfl, -, hw⟩
    · exact row _ r _ _ hc (.cancelled rfl) hw
    · exact row _ r _ _ hc (.cancelledNext rfl) hw
  | retargetPending account r target now =>
    simp only [step, Option.map_eq_some_iff] at h
    obtain ⟨db, he, rfl⟩ := h
    obtain ⟨c, hc⟩ := hch.chain r
    rcases hc.retargetPending hch he with ⟨m, n, mv, rfl, hp, hq, hw⟩ | ⟨p, pv, n, mv, rfl, hw⟩
    · exact row _ r _ _ hc (.retargeted rfl hp hq) hw
    · exact row _ r _ _ hc (.retargetedNext rfl) hw
  | followPending account r target now =>
    simp only [step, Option.map_eq_some_iff] at h
    obtain ⟨db, he, rfl⟩ := h
    obtain ⟨c, hc⟩ := hch.chain r
    obtain ⟨n, mv, rfl, hd, hw⟩ := hc.followPending hch he
    exact row _ r _ _ hc (.followed rfl hd) hw
  | absorbFlagPush rowId flag =>
    simp only [step, Option.bind_eq_bind, Option.bind_eq_some_iff, Option.some.injEq] at h
    obtain ⟨value, -, db, he, rfl⟩ := h
    exact relinked _ (.deferFlag he)
  | deferFlags rowIds flag value =>
    simp only [step, Option.some.injEq] at h
    subst h
    exact relinked _ (relinked_deferFlags rowIds flag value s)
  | pick n =>
    simp only [step, Option.ite_none_right_eq_some, Option.some.injEq] at h
    obtain ⟨-, rfl⟩ := h
    exact relinked _ .refl
  | settle n newUid folder store now =>
    simp only [step, Option.ite_none_right_eq_some] at h
    obtain ⟨⟨hheld, hu⟩, h⟩ := h
    obtain ⟨out, he⟩ := settle_db h
    obtain ⟨mv, hmv⟩ := Db.settle_lookup he
    obtain ⟨c, hc⟩ := hch.chain mv.messageRowId
    rcases hinv.starts hheld hmv hc with rfl | ⟨k, kv, rfl⟩
    · exact row _ _ _ _ hc (.settled rfl) (hc.settle_one hch hu he).1
    · exact row _ _ _ _ hc (.settledNext rfl) (hc.settle_two hch hu he).1
  | revert n now =>
    simp only [step, revert, Option.ite_none_right_eq_some, Option.map_eq_some_iff,
      Prod.exists] at h
    obtain ⟨hheld, out, db, he, rfl⟩ := h
    obtain ⟨mv, hmv⟩ := Db.revert_lookup he
    obtain ⟨c, hc⟩ := hch.chain mv.messageRowId
    rcases hinv.starts hheld hmv hc with rfl | ⟨k, kv, rfl⟩
    · exact row _ _ _ _ hc (.reverted rfl) (hc.revert_one hch he).1
    · exact row _ _ _ _ hc (.revertedNext rfl) (hc.revert_two hch he).1
  | drop n =>
    simp only [step, drop, Option.ite_none_right_eq_some, Option.map_eq_some_iff] at h
    obtain ⟨hheld, db, he, rfl⟩ := h
    obtain ⟨mv, hmv⟩ := Db.drop_lookup he
    have hs := (hinv.held n hheld).2 mv hmv
    obtain ⟨c, hc⟩ := hch.chain mv.messageRowId
    exact row _ _ _ _ hc (.dropped rfl (hc.mem hmv rfl)) (hc.drop hch hmv rfl hs he).1
  | _ =>
    obtain ⟨ids, q, f, held, hlink, -, rfl⟩ := step_updateMoves rfl h
    exact relinked _ (.updateMoves rfl hlink)

/-! ## The invariant -/

theorem Held.relinked (h : Held db held) (hr : Relinked db db') : Held db' held := by
  intro n hn
  obtain ⟨hid, hs⟩ := h n hn
  refine ⟨?_, fun mv hmv => ?_⟩
  · obtain ⟨f, -, -, hid', -⟩ := hr
    rwa [hid']
  · obtain ⟨old, hold, hlink⟩ := hr.lookup hmv
    rw [hlink.srcUid]
    exact hs old hold

theorem RowWrite.lookup (hw : RowWrite db db' r c') (hn : db'.moves.lookup n = some mv) :
    (n, mv) ∈ c'.moves ∨ db.moves.lookup n = some mv := by
  by_cases hr : mv.messageRowId = r
  · exact .inl (hw.at'.mem hn hr)
  · exact .inr ((hw.moves n mv hr).mp hn)

/-- Only the second of two moves waits for its source. -/
theorem Chain.WellFormed.waits (h : c.WellFormed) (hm : (n, mv) ∈ c.moves) (hs : mv.srcUid = none) :
    ∃ p pv, c = .two p pv n mv := by
  have hstarts : ¬Chain.Starts mv := by
    rintro ⟨⟨u, hu, -⟩, -⟩
    rw [hs] at hu
    cases hu
  cases c with
  | idle => simp at hm
  | one k kv =>
    simp only [Chain.mem_one, Prod.mk.injEq] at hm
    exact absurd (hm.2 ▸ h) hstarts
  | two p pv k kv =>
    simp only [Chain.mem_two, Prod.mk.injEq] at hm
    rcases hm with ⟨rfl, rfl⟩ | ⟨rfl, rfl⟩
    · exact absurd h.2.1 hstarts
    · exact ⟨p, pv, rfl⟩

/-- No step takes a source from a move. -/
theorem Chain.Step.waits (h : Chain.Step l db r c c') (hwf : c.WellFormed)
    (hc' : c' = .two p pv n mv) :
    n = db.nextMoveId ∨ ∃ old, (n, old) ∈ c.moves ∧ old.srcUid = none := by
  cases h with
  | retargetedNext _ =>
    cases hc'
    exact .inr ⟨_, Chain.mem_two.mpr (.inr rfl), hwf.2.2.1⟩
  | followed _ _ =>
    cases hc'
    exact .inl rfl
  | _ => cases hc'

theorem Held.rowWrite (h : Held db held) (hc : At db r c) (hs : Chain.Step l db r c c')
    (hw : RowWrite db db' r c') : Held db' held := by
  intro n hn
  obtain ⟨hid, hsrc⟩ := h n hn
  refine ⟨Nat.lt_of_lt_of_le hid hw.next, fun mv hmv hnone => ?_⟩
  rcases hw.lookup hmv with hmem | hold
  · obtain ⟨p, pv, hc'⟩ := hw.at'.wellFormed.waits hmem hnone
    rcases hs.waits hc.wellFormed hc' with rfl | ⟨old, hold, ho⟩
    · exact Nat.lt_irrefl _ hid
    · exact hsrc old (hc.lookup hold) ho
  · exact hsrc mv hold hnone

theorem Held.enqueueRows {account now : Nat} {target : Target} {rowIds : List Nat}
    (hch : Chained db) (h : Held db held) :
    Held (db.enqueueRows account rowIds target now) held := by
  refine (hch.enqueueRows (P := fun db => Held db held) ?_ rowIds h).2
  intro db db' r m _ hdb _ _ hw n hn
  obtain ⟨hid, hsrc⟩ := hdb n hn
  refine ⟨Nat.lt_of_lt_of_le hid hw.next, fun mv hmv => ?_⟩
  rcases hw.lookup hmv with hmem | hold
  · simp only [Chain.mem_one, Prod.mk.injEq] at hmem
    rw [hmem.2]
    intro hpending
    cases hpending
  · exact hsrc mv hold

theorem deferFlags_held (rowIds : List Nat) (flag : Flag) (value : Bool) (s : State) :
    (rowIds.foldl (fun s r => deferFlag s r flag value) s).held = s.held := by
  induction rowIds generalizing s with
  | nil => rfl
  | cons r rowIds ih =>
    have h : (deferFlag s r flag value).held = s.held := by
      rw [deferFlag]
      split <;> rfl
    exact (ih _).trans h

theorem storeSettledFlags_held (s : State) (r : Nat) (op : Move) (store : Store) :
    (storeSettledFlags s r op store).held = s.held := by
  cases store <;> rfl

/-- The worker lets go of no move, and what it takes into its hands was not queued. -/
theorem step_held (h : step s l = some s') : (∀ n ∈ s.held, n ∈ s'.held) ∧
    ∀ n ∈ s'.held, n ∈ s.held ∨ ∃ mv, s'.db.moves.lookup n = some mv ∧ mv.state ≠ .queued := by
  have hsame {t : State} (ht : t.held = s.held) : (∀ n ∈ s.held, n ∈ t.held) ∧
      ∀ n ∈ t.held, n ∈ s.held ∨ ∃ mv, t.db.moves.lookup n = some mv ∧ mv.state ≠ .queued := by
    rw [ht]
    exact ⟨fun _ hn => hn, fun _ hn => .inl hn⟩
  cases l with
  | claim ids now =>
    simp only [step, Option.some.injEq] at h
    subst h
    refine ⟨fun n hn => List.mem_append_right _ hn, fun n hn => ?_⟩
    simp only [List.mem_append, List.mem_filter, Option.any_eq_true, decide_eq_true_eq] at hn
    rcases hn with ⟨-, mv, hmv, hs⟩ | hn
    · exact .inr ⟨mv, hmv, by simp [hs]⟩
    · exact .inl hn
  | pick k =>
    simp only [step, Option.ite_none_right_eq_some, Option.some.injEq, Option.any_eq_true,
      decide_eq_true_eq] at h
    obtain ⟨⟨mv, hmv, hs⟩, rfl⟩ := h
    refine ⟨fun n hn => List.mem_cons_of_mem _ hn, fun n hn => ?_⟩
    rcases List.mem_cons.mp hn with rfl | hn
    · exact .inr ⟨mv, hmv, hs⟩
    · exact .inl hn
  | settle k newUid folder store now =>
    simp only [step, settle, Option.ite_none_right_eq_some, Option.map_eq_some_iff,
      Prod.exists] at h
    obtain ⟨-, out, db, -, rfl⟩ := h
    apply hsame
    split
    · exact storeSettledFlags_held _ _ _ _
    · rfl
  | deferFlags rowIds flag value =>
    simp only [step, Option.some.injEq] at h
    subst h
    exact hsame (deferFlags_held rowIds flag value s)
  | _ =>
    apply hsame
    simp only [step, cancelPending, revert, drop, Option.ite_none_right_eq_some,
      Option.map_eq_some_iff, Option.bind_eq_bind, Option.bind_eq_some_iff, Option.some.injEq,
      Prod.exists] at h
    grind [State.accept]

theorem Inv.step (hinv : Inv s) (h : step s l = some s') : Inv s' := by
  have hch : Chained s'.db := by
    refine step_tables hinv h (fun _ => hinv.chained.relinked) ?_ ?_
    · rintro account rowIds target now -
      exact (hinv.chained.enqueueRows (fun _ _ _ _ _ _ _ _ _ => trivial) rowIds trivial).1
    · exact fun _ _ _ _ _ _ hw => hinv.chained.rowWrite hw
  have hheld : Held s'.db s.held := by
    refine step_tables hinv h (fun _ => hinv.held.relinked) ?_ ?_
    · rintro account rowIds target now -
      exact hinv.held.enqueueRows hinv.chained
    · exact fun _ _ _ _ hc hs hw => hinv.held.rowWrite hc hs hw
  refine ⟨hch, fun n hn => ?_⟩
  rcases (step_held h).2 n hn with hn | ⟨mv, hmv, hs⟩
  · exact hheld n hn
  · refine ⟨(hch.ids hmv).2, fun mv' hmv' hnone => hs ?_⟩
    obtain rfl := Option.some.inj (hmv.symm.trans hmv')
    obtain ⟨c, hc⟩ := hch.chain mv.messageRowId
    obtain ⟨p, pv, rfl⟩ := hc.wellFormed.waits (hc.mem hmv rfl) hnone
    exact hc.wellFormed.2.2.2.2.1

theorem Inv.init (h : Initial s) : Inv s := by
  obtain ⟨hpos, hmoves, hnext, hheld, -⟩ := h
  have hnone : ∀ n, s.db.moves.lookup n = none := fun n => by rw [hmoves]; rfl
  refine ⟨⟨fun hn => ?_, hnext, fun r => ⟨.idle, fun n mv => ?_, trivial, fun hm => hpos r _ hm,
    fun h => (Chain.mem_idle.mp h).elim⟩⟩, ?_⟩
  · exact absurd ((hnone _).symm.trans hn) nofun
  · simp [hnone]
  · rw [hheld]
    exact nofun

theorem inv : system.Invariant anyStep Inv where
  init := Inv.init
  step h _ := h.step

/-- What the two tables of the move queue promise each other. -/
structure PlaceholdersResolve (db : Db) : Prop where
  /-- A row at a placeholder has exactly one move under it, its own, to the folder it shows in. -/
  pending : ∀ r m, db.messages.lookup r = some m → m.uid < 0 →
    ∃ n mv, (∀ k kv, (db.moves.lookup k = some kv ∧ (k : Int) = -m.uid) ↔ k = n ∧ kv = mv) ∧
      mv.messageRowId = r ∧ mv.destFolder = m.folder
  follower : ∀ p n k nv kv, db.moves.lookup n = some nv → db.moves.lookup k = some kv →
    nv.predecessorId = some p → kv.predecessorId = some p → n = k
  source : ∀ n mv, db.moves.lookup n = some mv →
    (mv.srcUid = none ↔ ∃ p pv, mv.predecessorId = some p ∧ db.moves.lookup p = some pv ∧
      pv.messageRowId = mv.messageRowId ∧ pv.srcUid ≠ none)
  waiting : ∀ n mv p pv, db.moves.lookup n = some mv → mv.srcUid = none →
    mv.predecessorId = some p → db.moves.lookup p = some pv →
    mv.state = .queued ∧ mv.srcFolder = pv.destFolder

theorem Chained.source (h : Chained db) (hn : db.moves.lookup n = some mv) :
    mv.srcUid = none ↔ ∃ p pv, mv.predecessorId = some p ∧ db.moves.lookup p = some pv ∧
      pv.messageRowId = mv.messageRowId ∧ pv.srcUid ≠ none := by
  constructor
  · intro hs
    obtain ⟨c, hc⟩ := h.chain mv.messageRowId
    obtain ⟨p, pv, rfl⟩ := hc.wellFormed.waits (hc.mem hn rfl) hs
    obtain ⟨-, ⟨⟨u, hu, -⟩, -⟩, -, hp, -⟩ := hc.wellFormed
    exact ⟨p, pv, hp, hc.first.1, hc.first.2, by simp [hu]⟩
  · rintro ⟨p, pv, hp, -, -, -⟩
    obtain ⟨pv', hc⟩ := h.follows hn hp
    exact hc.wellFormed.2.2.1

theorem Chained.placeholdersResolve (h : Chained db) : PlaceholdersResolve db where
  pending r m hm hu := by
    obtain ⟨c, hc⟩ := h.chain r
    have hlast : ∃ n mv, (n, mv) ∈ c.moves ∧ m.uid = placeholderUid n ∧ m.folder = mv.destFolder := by
      have hpl := hc.place hm
      cases c with
      | idle => exact absurd hu (Int.not_lt.mpr (Int.le_of_lt hpl))
      | one n mv => exact ⟨n, mv, by simp, hpl⟩
      | two p pv n mv => exact ⟨n, mv, by simp, hpl⟩
    obtain ⟨n, mv, hmem, hun, hd⟩ := hlast
    refine ⟨n, mv, fun k kv => ?_, hc.rowId hmem, hd.symm⟩
    rw [hun, placeholderUid, Int.neg_neg, Int.natCast_inj]
    constructor
    · rintro ⟨hk, rfl⟩
      exact ⟨rfl, Option.some.inj (hk.symm.trans (hc.lookup hmem))⟩
    · rintro ⟨rfl, rfl⟩
      exact ⟨hc.lookup hmem, rfl⟩
  follower p n k nv kv hn hk hpn hpk := by
    obtain ⟨pv, hc⟩ := h.follows hn hpn
    obtain ⟨pv', hc'⟩ := h.follows hk hpk
    obtain rfl := Option.some.inj (hc.first.1.symm.trans hc'.first.1)
    have hr : kv.messageRowId = nv.messageRowId := hc'.first.2.symm.trans hc.first.2
    have hmem := hc.mem hk hr
    simp only [Chain.mem_two, Prod.mk.injEq] at hmem
    rcases hmem with ⟨rfl, -⟩ | ⟨rfl, -⟩
    · exact absurd rfl hc'.wellFormed.1
    · rfl
  source n mv hn := h.source hn
  waiting n mv p pv hn _ hp hpv := by
    obtain ⟨pv', hc⟩ := h.follows hn hp
    obtain rfl := Option.some.inj (hc.first.1.symm.trans hpv)
    exact hc.wellFormed.2.2.2.2

/-- **No row is left at a placeholder**: in every reachable state the two tables of the move queue
agree, whatever requests, runs and destination syncs came before. -/
theorem placeholders_resolve (h : system.Reachable s) : PlaceholdersResolve s.db :=
  (inv.reachable h).chained.placeholdersResolve

/-- A letter moved twice while its first move is on its way. -/
theorem placeholders_resolve_followed : ∃ s : State, s.db.moves.keys = [2, 1] ∧
    PlaceholdersResolve s.db := by
  have htrace : (system.exec TransitionSystem.anyStep
      (.ofRows [(7, { account := 1, folder := "INBOX", uid := 40, messageId := some "<a@b>" })])
      [.enqueueRows 1 [7] { dest := "Work" } 10, .claim [1] 11,
        .followPending 1 7 { dest := "Done" } 12]).any
      (fun s => s.db.moves.keys = [2, 1]) = true := by
    decide
  obtain ⟨s, hs, hp⟩ := TransitionSystem.reaches_of_exec (Initial.ofRows (by simp)) htrace
  exact ⟨s, of_decide_eq_true hp, placeholders_resolve hs⟩

end MailExpert.MoveQueue
