import MailExpert.MoveQueue.ArrivalSystem

/-!
# Rows of letters that share a Message-ID

`claimArrival` knows a letter by its Message-ID, the worker's settle by its source uid, and a settle
deletes whatever other row holds the place its row takes. `handsOutOnce` is what keeps the two
apart: the uid of a letter is given to one row only. Under it every row that had a move stays and
no two rows share a place (`rows_survive`); a settle that gives a uid out for the second time
deletes the row that has it (`deleted_of_step`).
-/

namespace MailExpert.MoveQueue

variable {db db' : Db} {n k : Nat} {mv : Move} {uid : Int} {folder : Option String} {now : Nat}
  {out : Db.Settled}

/-- What a settle writes: the move goes, and its row takes the place, if it does. -/
theorem Db.settle_some (h : db.settle n uid folder now = some (out, db')) :
    ∃ cur, db.moves.lookup n = some cur ∧
      (∀ k mv, db'.moves.lookup k = some mv → ∃ old, db.moves.lookup k = some old ∧
        SameAim old mv) ∧
      (out.row = none → cur.dropRow = false → db'.messages = db.messages) ∧
      ∀ row, out.row = some row → db.messages.lookup cur.messageRowId = some row ∧
        ∃ row', row'.account = row.account ∧ row'.folder = folder.getD cur.destFolder ∧
          row'.uid = uid ∧ db'.messages = (freePlace db.messages cur.account
            (folder.getD cur.destFolder) uid cur.messageRowId).insert cur.messageRowId row' := by
  simp only [Db.settle, Option.bind_eq_bind, Option.bind_eq_some_iff] at h
  obtain ⟨cur, hcur, h⟩ := h
  have hmoves : db'.moves = Table.update (db.moves.erase n) (fun _ mv => mv.predecessorId = some n)
      fun _ => startFrom cur (folder.getD cur.destFolder) uid now := by
    split at h
    · cases h
      rfl
    · cases h
      rfl
    · split at h <;> cases h <;> rfl
  refine ⟨cur, hcur, fun k mv hk => ?_, fun hrow hdrop => ?_, fun row hrow => ?_⟩
  · rw [hmoves, Table.lookup_erase_update] at hk
    obtain ⟨-, old, hold, rfl⟩ := hk
    refine ⟨old, hold, ?_⟩
    split
    · exact ⟨rfl, rfl, rfl, rfl, rfl⟩
    · exact ⟨rfl, rfl, rfl, rfl, rfl⟩
  · simp only [hdrop, Bool.false_eq_true, false_and, if_false] at h
    split at h
    · cases h
      rfl
    · cases h
      rfl
    · cases h
      cases hrow
  · split at h
    · cases h
      cases hrow
    · cases h
      cases hrow
    · next row₀ hat =>
      split at h
      · cases h
        cases hrow
      · cases h
        cases hrow
        refine ⟨(Db.rowAt_some.mp hat).1, _, ?_, ?_, ?_, rfl⟩ <;> rfl

namespace Arrival

variable {server : Server} {account : Nat} {s s' : State} {l : Label} {r r' : Nat}
  {m row : Message} {moved taken : List Nat}

/-- The letter's uid has not gone to a row yet, or no row takes it now. -/
def handsOut (s : State) (n k : Nat) : Bool :=
  (s.queue.db.moves.lookup n).isNone ∨ (s.queue.db.follower n).isSome ∨ k ∉ s.taken

/-- The step gives no uid to a second row. -/
def handsOutOnce (s : State) : Label → Bool
  | .settle n _ _ => handsOut s n n
  | .settleArrival k _ _ => match s.stages.lookup k with
    | some (.chosen n) => handsOut s n k
    | _ => true
  | _ => true

def AtLetter (server : Server) (m : Message) (k : Nat) : Prop :=
  m.folder = (server.letter k).folder ∧ m.uid = (server.letter k).uid

theorem AtLetter.pos (h : AtLetter server m k) : 0 < m.uid := h.2 ▸ server.pos k

theorem AtLetter.eq (h : AtLetter server m k) (h' : AtLetter server m n) : k = n :=
  server.distinct (h.1.symm.trans h'.1) (h.2.symm.trans h'.2)

/-- The rows that had a move, of which each at a server location took the uid of a letter. -/
structure Rows (server : Server) (db : Db) (moved taken : List Nat) : Prop where
  kept : ∀ r ∈ moved, ∃ m, db.messages.lookup r = some m
  origin : ∀ r ∈ moved, ∀ m, db.messages.lookup r = some m → 0 < m.uid →
    ∃ k ∈ taken, AtLetter server m k
  taken : ∀ k ∈ taken, ∃ r ∈ moved, ∃ m, db.messages.lookup r = some m ∧ AtLetter server m k

theorem Rows.of_messages (h : Rows server db moved taken) (hm : db'.messages = db.messages) :
    Rows server db' moved taken where
  kept := hm ▸ h.kept
  origin := hm ▸ h.origin
  taken := hm ▸ h.taken

/-- The table of the rows after `r` took a place. -/
theorem lookup_takePlace {messages : Table Nat Message} {folder : String} :
    ((Db.freePlace messages account folder uid r).insert r row).lookup r' = some m ↔
      (r' = r ∧ m = row) ∨ r' ≠ r ∧ messages.lookup r' = some m ∧
        ¬(m.account = account ∧ m.folder = folder ∧ m.uid = uid) := by
  rw [Table.lookup_insert']
  split
  · next h =>
    subst h
    simp [eq_comm]
  · next h =>
    simp only [Db.freePlace, Table.lookup_delete, Option.filter_eq_some_iff, h, false_and, false_or,
      ne_eq, not_false_eq_true, true_and, Bool.not_eq_true', decide_eq_false_iff_not]

/-- A row takes the uid of a letter that no row has taken: no row that had a move goes. -/
theorem Rows.take (h : Rows server db moved taken) (hk : k ∉ taken) (hr : r ∈ moved)
    (hm : db.messages.lookup r = some m) (hu : m.uid ≤ 0) (hrow : AtLetter server row k)
    (hdb : db'.messages = (Db.freePlace db.messages account (server.letter k).folder
      (server.letter k).uid r).insert r row) : Rows server db' moved (k :: taken) := by
  have hstay : ∀ r' ∈ moved, r' ≠ r → ∀ m, db.messages.lookup r' = some m →
      db'.messages.lookup r' = some m := by
    intro r' hr' hne m' hm'
    rw [hdb, lookup_takePlace]
    refine .inr ⟨hne, hm', ?_⟩
    rintro ⟨-, hf, hu'⟩
    have hpos : 0 < m'.uid := hu' ▸ server.pos k
    obtain ⟨j, hj, hat⟩ := h.origin r' hr' m' hm' hpos
    exact hk (hat.eq ⟨hf, hu'⟩ ▸ hj)
  have hself : db'.messages.lookup r = some row := by
    rw [hdb]
    exact AList.lookup_insert _
  refine ⟨fun r' hr' => ?_, fun r' hr' m' hm' hpos => ?_, fun j hj => ?_⟩
  · by_cases hne : r' = r
    · exact ⟨row, hne ▸ hself⟩
    · obtain ⟨m', hm'⟩ := h.kept r' hr'
      exact ⟨m', hstay r' hr' hne m' hm'⟩
  · rw [hdb, lookup_takePlace] at hm'
    rcases hm' with ⟨-, rfl⟩ | ⟨-, hm', -⟩
    · exact ⟨k, List.mem_cons_self, hrow⟩
    · obtain ⟨j, hj, hat⟩ := h.origin r' hr' m' hm' hpos
      exact ⟨j, List.mem_cons_of_mem _ hj, hat⟩
  · rcases List.mem_cons.mp hj with rfl | hj
    · exact ⟨r, hr, row, hself, hrow⟩
    · obtain ⟨r', hr', m', hm', hat⟩ := h.taken j hj
      have hne : r' ≠ r := by
        rintro rfl
        obtain rfl := Option.some.inj (hm.symm.trans hm')
        have hpos := hat.pos
        omega
      exact ⟨r', hr', m', hstay r' hr' hne m' hm', hat⟩

theorem UniquePlaces.take {folder : String} (h : UniquePlaces db)
    (howner : ∀ r m, db.messages.lookup r = some m → m.account = account)
    (hf : row.folder = folder) (hu : row.uid = uid)
    (hdb : db'.messages = (Db.freePlace db.messages account folder uid r).insert r row) :
    UniquePlaces db' := by
  intro r₁ m₁ r₂ m₂ h₁ h₂ hfolder huid
  rw [hdb, lookup_takePlace] at h₁ h₂
  rcases h₁ with ⟨rfl, rfl⟩ | ⟨-, h₁, hno₁⟩
  · rcases h₂ with ⟨rfl, -⟩ | ⟨-, h₂, hno₂⟩
    · rfl
    · exact absurd ⟨howner _ _ h₂, hfolder.symm.trans hf, huid.symm.trans hu⟩ hno₂
  · rcases h₂ with ⟨rfl, rfl⟩ | ⟨-, h₂, -⟩
    · exact absurd ⟨howner _ _ h₁, hfolder.trans hf, huid.trans hu⟩ hno₁
    · exact h _ _ _ _ h₁ h₂ hfolder huid

/-! ## The invariant -/

structure Inv (server : Server) (account : Nat) (s : State) : Prop where
  queue : MoveQueue.Inv s.queue
  pending : Pending server account s.queue.db
  moved : ∀ n mv, s.queue.db.moves.lookup n = some mv → mv.messageRowId ∈ s.moved
  rows : Rows server s.queue.db s.moved s.taken
  chosen : ∀ k n, s.stages.lookup k = some (.chosen n) →
    (server.letter n).folder = (server.letter k).folder ∧ n ∈ s.queue.held

theorem Inv.chosen_mono (h : Inv server account s) {held : List Nat}
    (hheld : ∀ n ∈ s.queue.held, n ∈ held) : ∀ k n, s.stages.lookup k = some (.chosen n) →
      (server.letter n).folder = (server.letter k).folder ∧ n ∈ held := by
  intro k n hk
  obtain ⟨hf, hn⟩ := h.chosen k n hk
  exact ⟨hf, hheld n hn⟩

/-- Moves that keep their aim keep what is known of them. -/
theorem Pending.of_sameAim (h : Pending server account db)
    (howner : ∀ r m, db'.messages.lookup r = some m → m.account = account)
    (hunique : UniquePlaces db')
    (hmoves : ∀ k mv, db'.moves.lookup k = some mv →
      ∃ old, db.moves.lookup k = some old ∧ SameAim old mv) : Pending server account db' := by
  refine ⟨howner, hunique, fun k mv hk => ?_⟩
  obtain ⟨old, hold, haim⟩ := hmoves k mv hk
  rw [haim.account, haim.dropRow, haim.destFolder, haim.messageIdHeader]
  exact h.moves k old hold

theorem Inv.setStage (h : Inv server account s) {stage : Stage}
    (hstage : ∀ n, stage = .chosen n →
      (server.letter n).folder = (server.letter k).folder ∧ n ∈ s.queue.held) :
    Inv server account (s.setStage k stage) where
  queue := h.queue
  pending := h.pending
  moved := h.moved
  rows := h.rows
  chosen j n hj := by
    simp only [State.setStage, Table.lookup_insert'] at hj
    split at hj
    · next hjk => exact hjk ▸ hstage n (Option.some.inj hj)
    · exact h.chosen j n hj

theorem settleAt_some {store : Store} {took : Bool}
    (hs : settleAt server s n k store now = some (s', took)) :
    ∃ out queue, n ∈ s.queue.held ∧
      s.queue.db.settle n (server.letter k).uid none now = some (out, queue.db) ∧
      MoveQueue.step s.queue (.settle n (server.letter k).uid none store now) = some queue ∧
      s' = { s with
        queue, expected := s.expected.filter (· ≠ n)
        taken := if out.row.isSome then k :: s.taken else s.taken } := by
  simp only [settleAt, Option.bind_eq_bind, Option.bind_eq_some_iff, Option.some.injEq,
    Prod.mk.injEq, Prod.exists] at hs
  obtain ⟨out, db, he, queue, hstep, rfl, -⟩ := hs
  have hsettle := hstep
  simp only [MoveQueue.step, Option.ite_none_right_eq_some] at hsettle
  obtain ⟨out', he'⟩ := settle_db hsettle.2
  obtain ⟨rfl, rfl⟩ := Prod.mk.inj (Option.some.inj (he'.symm.trans he))
  exact ⟨_, queue, hsettle.1.1, he, hstep, rfl⟩

/-- A settle at the uid of a letter that no row has. -/
theorem Inv.settleAt (h : Inv server account s) {store : Store} {took : Bool}
    (hfolder : (server.letter n).folder = (server.letter k).folder)
    (hg : handsOut s n k = true)
    (hs : settleAt server s n k store now = some (s', took)) : Inv server account s' := by
  obtain ⟨out, queue, hheld, he, hstep, rfl⟩ := settleAt_some hs
  have hinv := h.queue.step hstep
  have hchosen := h.chosen_mono (step_held hstep).1
  obtain ⟨cur, hcur, hmoves, hkeep, htake⟩ := Db.settle_some he
  have hmoved : ∀ n mv, queue.db.moves.lookup n = some mv → mv.messageRowId ∈ s.moved := by
    intro j jv hj
    obtain ⟨old, hold, haim⟩ := hmoves j jv hj
    exact haim.messageRowId ▸ h.moved j old hold
  obtain ⟨haccount, hdrop, hdest, -⟩ := h.pending.moves n cur hcur
  have hch := h.queue.chained
  obtain ⟨c, hc⟩ := hch.chain cur.messageRowId
  rcases h.queue.starts hheld hcur hc with rfl | ⟨j, jv, rfl⟩
  · obtain ⟨-, -, -, hrow⟩ := hc.settle_one hch (server.pos k) he
    have hsome : out.row.isSome := hrow.mpr fun hdropped => by simp [hdrop] at hdropped
    obtain ⟨row, hrow⟩ := Option.isSome_iff_exists.mp hsome
    obtain ⟨hm, row', haccount', hfolder', huid', hmessages⟩ := htake row hrow
    have hk : k ∉ s.taken := by
      simpa [handsOut, hcur, (hc.follower hch).1 rfl] using hg
    have hat : AtLetter server row' k :=
      ⟨hfolder'.trans (hdest.symm.trans hfolder), huid'⟩
    have hplace : queue.db.messages = (Db.freePlace s.queue.db.messages account
        (server.letter k).folder (server.letter k).uid cur.messageRowId).insert
          cur.messageRowId row' := by
      rw [hmessages, haccount, Option.getD_none, ← hdest, hfolder]
    have hle := hc.uid_nonpos (Chain.mem_one.mpr rfl) hm
    refine ⟨hinv, h.pending.of_sameAim (fun r m hr => ?_)
      (h.pending.unique.take h.pending.owner hat.1 hat.2 hplace) hmoves, hmoved, ?_, hchosen⟩
    · rw [hplace, lookup_takePlace] at hr
      rcases hr with ⟨-, rfl⟩ | ⟨-, hr, -⟩
      · exact haccount'.trans (h.pending.owner _ _ hm)
      · exact h.pending.owner r m hr
    · rw [hrow]
      exact h.rows.take hk (h.moved n cur hcur) hm hle hat hplace
  · obtain ⟨-, -, -, hrow⟩ := hc.settle_two hch (server.pos k) he
    have hmessages : queue.db.messages = s.queue.db.messages := hkeep hrow hdrop
    refine ⟨hinv, h.pending.of_sameAim (hmessages ▸ h.pending.owner) ?_ hmoves, hmoved, ?_,
      hchosen⟩
    · rw [UniquePlaces, hmessages]
      exact h.pending.unique
    · rw [hrow]
      exact h.rows.of_messages hmessages

theorem expectedMove_some {letter : Letter} (h : expectedMove account db letter = some n) :
    ∃ mv, db.moves.lookup n = some mv ∧ mv.destFolder = letter.folder ∧ mv.state ≠ .queued := by
  have hmem := List.min?_mem h
  obtain ⟨⟨n', mv⟩, hmv, rfl⟩ := List.mem_map.mp hmem
  obtain ⟨hlookup, hq⟩ := Table.mem_select.mp hmv
  simp only [decide_eq_true_eq] at hq
  exact ⟨mv, hlookup, hq.2.1, hq.2.2.2⟩

/-- The worker's writes on its moves leave their letters and every row where they are. -/
theorem Inv.worker (h : Inv server account s) {l : MoveQueue.Label} {queue : MoveQueue.State}
    (hl : l.onHeldMoves = true) (hs : MoveQueue.step s.queue l = some queue) :
    Inv server account { s with queue } := by
  have hinv := h.queue.step hs
  have hchosen := h.chosen_mono (step_held hs).1
  obtain ⟨ids, q, f, held, hlink, -, rfl⟩ := step_updateMoves hl hs
  have hmoves : ∀ k mv, (s.queue.db.updateMoves ids q f).moves.lookup k = some mv →
      ∃ old, s.queue.db.moves.lookup k = some old ∧ SameAim old mv := by
    intro k mv hk
    obtain ⟨old, hold, hlink⟩ := (Relinked.updateMoves rfl hlink).lookup hk
    exact ⟨old, hold, hlink.toSameAim⟩
  refine ⟨hinv, h.pending.of_sameAim h.pending.owner h.pending.unique hmoves, fun n mv hn => ?_,
    h.rows.of_messages rfl, hchosen⟩
  obtain ⟨old, hold, haim⟩ := hmoves n mv hn
  exact haim.messageRowId ▸ h.moved n old hold

/-- A letter that `claimArrival` refused is inserted in a row of its own. -/
theorem Inv.insert (h : Inv server account s) {id : Nat} {queue : MoveQueue.State}
    (hm : m.account = account) (hfree : ∀ r m', s.queue.db.messages.lookup r = some m' →
      ¬(m'.folder = m.folder ∧ m'.uid = m.uid))
    (hs : MoveQueue.step s.queue (.syncInsert id m) = some queue) :
    Inv server account { s with queue } := by
  have hinv := h.queue.step hs
  simp only [MoveQueue.step, Option.ite_none_right_eq_some, Option.some.injEq] at hs
  obtain ⟨⟨hnew, -⟩, rfl⟩ := hs
  have hne : ∀ r m', s.queue.db.messages.lookup r = some m' → r ≠ id := by
    rintro r m' hr rfl
    rw [hnew] at hr
    cases hr
  have hlookup : ∀ r m', (s.queue.db.messages.insert id m).lookup r = some m' →
      (r = id ∧ m' = m) ∨ s.queue.db.messages.lookup r = some m' := by
    intro r m' hr
    rw [Table.lookup_insert'] at hr
    split at hr
    · next hrid => exact .inl ⟨hrid, (Option.some.inj hr).symm⟩
    · exact .inr hr
  have hstay : ∀ r m', s.queue.db.messages.lookup r = some m' →
      (s.queue.db.messages.insert id m).lookup r = some m' := fun r m' hr =>
    (AList.lookup_insert_ne (hne r m' hr)).trans hr
  refine ⟨hinv, ⟨fun r m' hr => ?_, fun r₁ m₁ r₂ m₂ h₁ h₂ hf hu => ?_, h.pending.moves⟩, h.moved,
    ⟨fun r hr => ?_, fun r hr m' hm' hpos => ?_, fun k hk => ?_⟩, h.chosen⟩
  · rcases hlookup r m' hr with ⟨-, rfl⟩ | hr
    · exact hm
    · exact h.pending.owner r m' hr
  · rcases hlookup r₁ m₁ h₁ with ⟨rfl, rfl⟩ | h₁'
    · rcases hlookup r₂ m₂ h₂ with ⟨rfl, -⟩ | h₂'
      · rfl
      · exact absurd ⟨hf.symm, hu.symm⟩ (hfree _ _ h₂')
    · rcases hlookup r₂ m₂ h₂ with ⟨rfl, rfl⟩ | h₂'
      · exact absurd ⟨hf, hu⟩ (hfree _ _ h₁')
      · exact h.pending.unique _ _ _ _ h₁' h₂' hf hu
  · obtain ⟨m', hm'⟩ := h.rows.kept r hr
    exact ⟨m', hstay r m' hm'⟩
  · obtain ⟨m₀, hm₀⟩ := h.rows.kept r hr
    obtain rfl := Option.some.inj ((hstay r m₀ hm₀).symm.trans hm')
    exact h.rows.origin r hr m₀ hm₀ hpos
  · obtain ⟨r, hr, m', hm', hat⟩ := h.rows.taken k hk
    exact ⟨r, hr, m', hstay r m' hm', hat⟩

theorem Inv.step (h : Inv server account s) (hg : handsOutOnce s l = true)
    (hs : step server account s l = some s') : Inv server account s' := by
  cases l with
  | worker l =>
    simp only [Arrival.step, Option.ite_none_right_eq_some, Option.map_eq_some_iff] at hs
    obtain ⟨hl, queue, hs, rfl⟩ := hs
    exact h.worker hl hs
  | expect n =>
    simp only [Arrival.step, Option.ite_none_right_eq_some, Option.some.injEq] at hs
    obtain ⟨-, rfl⟩ := hs
    exact ⟨h.queue, h.pending, h.moved, h.rows, h.chosen⟩
  | unexpect n =>
    simp only [Arrival.step, Option.some.injEq] at hs
    subst hs
    exact ⟨h.queue, h.pending, h.moved, h.rows, h.chosen⟩
  | settle n store now =>
    simp only [Arrival.step, Option.map_eq_some_iff, Prod.exists] at hs
    obtain ⟨s₁, took, hs, rfl⟩ := hs
    exact h.settleAt rfl hg hs
  | arrive k =>
    simp only [Arrival.step, Option.ite_none_right_eq_some, Option.some.injEq] at hs
    obtain ⟨-, rfl⟩ := hs
    refine h.setStage fun n hn => ?_
    split at hn <;> cases hn
  | choose k =>
    simp only [Arrival.step, Option.ite_none_right_eq_some] at hs
    obtain ⟨-, hs⟩ := hs
    split at hs
    · cases hs
      exact h.setStage (by simp)
    · next n hn =>
      simp only [MoveQueue.step, Option.map_eq_some_iff, Option.ite_none_right_eq_some,
        Option.some.injEq] at hs
      obtain ⟨queue, hpick, rfl⟩ := hs
      have hstep : MoveQueue.step s.queue (.pick n) = some queue := by
        rw [MoveQueue.step, if_pos hpick.1, hpick.2]
      have hinv := h.queue.step hstep
      have hchosen := h.chosen_mono (step_held hstep).1
      obtain ⟨-, rfl⟩ := hpick
      have h₁ : Inv server account { s with queue := { s.queue with held := n :: s.queue.held } } :=
        ⟨hinv, h.pending, h.moved, h.rows, hchosen⟩
      refine h₁.setStage fun n' hn' => ?_
      cases hn'
      obtain ⟨mv, hmv, hd, -⟩ := expectedMove_some hn
      exact ⟨(h.pending.moves n mv hmv).2.2.1.trans hd, List.mem_cons_self⟩
  | settleArrival k store now =>
    simp only [Arrival.step] at hs
    split at hs
    · next n hstage =>
      simp only [handsOutOnce, hstage] at hg
      split at hs
      · next s₁ took hsettle =>
        cases hs
        refine (h.settleAt (h.chosen k n hstage).1 hg hsettle).setStage fun n' hn' => ?_
        split at hn' <;> cases hn'
      · cases hs
        exact h.setStage (by simp)
    · cases hs
  | insert k id now =>
    simp only [Arrival.step, Option.ite_none_right_eq_some] at hs
    obtain ⟨-, hs⟩ := hs
    split at hs
    · next hfree =>
      simp only [Option.map_eq_some_iff] at hs
      obtain ⟨queue, hs, rfl⟩ := hs
      refine (h.insert rfl (fun r m hr hat => ?_) hs).setStage (by simp)
      have hmem := Table.mem_select (p := fun _ m => m.account = account ∧
        m.folder = (server.letter k).folder ∧ m.uid = (server.letter k).uid).mpr
        ⟨hr, decide_eq_true ⟨h.pending.owner r m hr, hat⟩⟩
      rw [hfree] at hmem
      cases hmem
    · cases hs
      exact h.setStage (by simp)

theorem mem_moved {queue : MoveQueue.State} {expected : List Nat} :
    r ∈ (State.start queue expected).moved ↔
      ∃ n mv, queue.db.moves.lookup n = some mv ∧ mv.messageRowId = r := by
  simp only [State.start, List.mem_map]
  constructor
  · rintro ⟨e, he, rfl⟩
    exact ⟨e.1, e.2, Table.mem_entries.mp he, rfl⟩
  · rintro ⟨n, mv, hn, rfl⟩
    exact ⟨⟨n, mv⟩, Table.mem_entries.mpr hn, rfl⟩

theorem Inv.start {queue : MoveQueue.State} {expected : List Nat}
    (hqueue : MoveQueue.system.Reachable queue) (hp : Pending server account queue.db) :
    Inv server account (.start queue expected) := by
  have hinv := MoveQueue.inv.reachable hqueue
  refine ⟨hinv, hp, fun n mv hn => mem_moved.mpr ⟨n, mv, hn, rfl⟩, ⟨?_, ?_, nofun⟩, nofun⟩
  · intro r hr
    obtain ⟨n, mv, hn, rfl⟩ := mem_moved.mp hr
    obtain ⟨c, hc⟩ := hinv.chained.chain mv.messageRowId
    exact hc.row (hc.mem hn rfl)
  · intro r hr m hm hpos
    obtain ⟨n, mv, hn, rfl⟩ := mem_moved.mp hr
    obtain ⟨c, hc⟩ := hinv.chained.chain mv.messageRowId
    have hle := hc.uid_nonpos (hc.mem hn rfl) hm
    omega

theorem inv : (system server account).Invariant (fun s l => handsOutOnce s l = true)
    (Inv server account) where
  init hi := by
    obtain ⟨queue, expected, hqueue, hp, rfl⟩ := hi
    exact Inv.start hqueue hp
  step h hg hs := h.step hg hs

/-- **Rows of letters that share a Message-ID survive their moves**, in every run that gives each
uid to one row. -/
theorem rows_survive
    (h : (system server account).ReachesUnder (fun s l => handsOutOnce s l = true) s) :
    (∀ r ∈ s.moved, (s.queue.db.messages.lookup r).isSome) ∧
      (s.queue.db.moves = ∅ → UniquePlaces s.queue.db) := by
  have hinv := inv.reachesUnder h
  refine ⟨fun r hr => ?_, fun _ => hinv.pending.unique⟩
  obtain ⟨m, hm⟩ := hinv.rows.kept r hr
  rw [hm]
  rfl

def Server.inOrder (messageId folder : String) : Server where
  letter n := { folder, messageId := some messageId, uid := 100 + n }
  pos n := by
    dsimp only
    omega
  distinct _ h := by
    dsimp only at h
    omega

/-- Two copies of a letter on their way from the inbox to another folder. -/
def twoCopies : MoveQueue.State :=
  let copy uid := { account := 1, folder := "INBOX", uid, messageId := some "<a@b>" }
  (MoveQueue.system.exec TransitionSystem.anyStep (.ofRows [(7, copy 40), (8, copy 41)])
    [.enqueueRows 1 [7, 8] { dest := "Work" } 10, .claim [1, 2] 11, .markSent [1, 2] 11]).getD
      (.ofRows [])

theorem twoCopies_reachable : MoveQueue.system.Reachable twoCopies := by
  have hsome : (MoveQueue.system.exec TransitionSystem.anyStep
      (.ofRows [(7, { account := 1, folder := "INBOX", uid := 40, messageId := some "<a@b>" }),
        (8, { account := 1, folder := "INBOX", uid := 41, messageId := some "<a@b>" })])
      [.enqueueRows 1 [7, 8] { dest := "Work" } 10, .claim [1, 2] 11,
        .markSent [1, 2] 11]).isSome := by
    decide
  obtain ⟨queue, hq⟩ := Option.isSome_iff_exists.mp hsome
  have heq : twoCopies = queue := by
    rw [twoCopies, hq]
    rfl
  rw [heq]
  exact ⟨_, Initial.ofRows (by simp), TransitionSystem.run_of_exec hq⟩

theorem twoCopies_pending :
    Pending (.inOrder "<a@b>" "Work") 1 twoCopies.db := by
  refine ⟨fun r m hm => ?_, fun r m r' m' hm hm' hf hu => ?_, fun n mv hn => ?_⟩
  · have hall : (twoCopies.db.messages.entries.all fun e => e.2.account = 1) = true := by decide
    exact of_decide_eq_true (Table.all_of_entries (p := fun _ m => m.account = 1) hall hm)
  · have hall : (twoCopies.db.messages.entries.all fun e =>
        twoCopies.db.messages.entries.all fun e' => e.2.uid = e'.2.uid → e.1 = e'.1) = true := by
      decide
    have hrow := Table.all_of_entries (p := fun r m => twoCopies.db.messages.entries.all fun e' =>
      m.uid = e'.2.uid → r = e'.1) hall hm
    exact of_decide_eq_true (Table.all_of_entries (p := fun r' m' => m.uid = m'.uid → r = r')
      hrow hm') hu
  · have hall : (twoCopies.db.moves.entries.all fun e => e.2.account = 1 ∧ e.2.dropRow = false ∧
        "Work" = e.2.destFolder ∧ some "<a@b>" = e.2.messageIdHeader) = true := by
      decide
    exact of_decide_eq_true (Table.all_of_entries (p := fun _ mv => mv.account = 1 ∧
      mv.dropRow = false ∧ "Work" = mv.destFolder ∧ some "<a@b>" = mv.messageIdHeader) hall hn)

theorem twoCopies_init :
    (system (.inOrder "<a@b>" "Work") 1).init (.start twoCopies [1, 2]) :=
  ⟨twoCopies, [1, 2], twoCopies_reachable, twoCopies_pending, rfl⟩

/-- The sync sees the second copy first, and the first row takes its uid; the second row takes it
from there. -/
theorem not_rows_survive : ¬∀ server account s, (system server account).Reachable s →
    (∀ r ∈ s.moved, (s.queue.db.messages.lookup r).isSome) ∧
      (s.queue.db.moves = ∅ → UniquePlaces s.queue.db) := by
  have htrace : ((system (.inOrder "<a@b>" "Work") 1).exec TransitionSystem.anyStep
      (.start twoCopies [1, 2])
      [.arrive 2, .choose 2, .settleArrival 2 .stored 12, .settle 2 .stored 13]).any
      (fun s => 7 ∈ s.moved ∧ s.queue.db.messages.lookup 7 = none) = true := by
    decide
  obtain ⟨s, hs, hp⟩ := TransitionSystem.reaches_of_exec twoCopies_init htrace
  obtain ⟨hmoved, hgone⟩ := of_decide_eq_true hp
  intro h
  have hrow := (h _ _ s hs).1 7 hmoved
  simp [hgone] at hrow

/-- Both copies are seen first by the sync, the second one before the first. -/
theorem rows_survive_swapped : ∃ s : State, s.moved = [8, 7] ∧ s.queue.db.moves = ∅ ∧
    (∀ r ∈ s.moved, (s.queue.db.messages.lookup r).isSome) ∧ UniquePlaces s.queue.db := by
  have htrace : ((system (.inOrder "<a@b>" "Work") 1).exec (fun s l => handsOutOnce s l = true)
      (.start twoCopies [1, 2])
      [.arrive 2, .choose 2, .settleArrival 2 .stored 12, .arrive 1, .choose 1,
        .settleArrival 1 .stored 13]).any
      (fun s => s.moved = [8, 7] ∧ s.queue.db.moves.entries = []) = true := by
    decide
  obtain ⟨s, hs, hp⟩ := TransitionSystem.reaches_of_exec twoCopies_init htrace
  obtain ⟨hmoved, hempty⟩ := of_decide_eq_true hp
  have hmoves : s.queue.db.moves = ∅ := AList.ext hempty
  obtain ⟨hrows, hunique⟩ := rows_survive hs
  exact ⟨s, hmoved, hmoves, hrows, hunique hmoves⟩

/-- A uid given out again: the row that has it goes. -/
theorem Inv.deleted (h : Inv server account s) {store : Store} {took : Bool}
    (hfolder : (server.letter n).folder = (server.letter k).folder) (hg : handsOut s n k = false)
    (hs : Arrival.settleAt server s n k store now = some (s', took)) :
    ∃ r ∈ s'.moved, s'.queue.db.messages.lookup r = none := by
  obtain ⟨out, queue, hheld, he, hstep, rfl⟩ := settleAt_some hs
  obtain ⟨cur, hcur, -, -, htake⟩ := Db.settle_some he
  obtain ⟨haccount, hdrop, hdest, -⟩ := h.pending.moves n cur hcur
  simp only [handsOut, hcur, Option.isNone_some, Bool.false_eq_true, false_or, not_or, not_not,
    decide_eq_false_iff_not, Bool.not_eq_true] at hg
  obtain ⟨hnone, hk⟩ := hg
  have hch := h.queue.chained
  obtain ⟨c, hc⟩ := hch.chain cur.messageRowId
  rcases h.queue.starts hheld hcur hc with rfl | ⟨j, jv, rfl⟩
  · obtain ⟨-, -, -, hrow⟩ := hc.settle_one hch (server.pos k) he
    have hsome : out.row.isSome := hrow.mpr fun hdropped => by simp [hdrop] at hdropped
    obtain ⟨row, hrow⟩ := Option.isSome_iff_exists.mp hsome
    obtain ⟨hm, row', -, -, -, hmessages⟩ := htake row hrow
    obtain ⟨r, hr, m, hmr, hat⟩ := h.rows.taken k hk
    have hle := hc.uid_nonpos (Chain.mem_one.mpr rfl) hm
    have hne : r ≠ cur.messageRowId := by
      rintro rfl
      obtain rfl := Option.some.inj (hmr.symm.trans hm)
      have hpos := hat.pos
      omega
    refine ⟨r, hr, Option.eq_none_iff_forall_ne_some.mpr fun m' hm' => ?_⟩
    dsimp only at hm'
    rw [hmessages, lookup_takePlace] at hm'
    rcases hm' with ⟨heq, -⟩ | ⟨-, hold, hno⟩
    · exact hne heq
    · obtain rfl := Option.some.inj (hmr.symm.trans hold)
      refine hno ⟨(h.pending.owner r m hmr).trans haccount.symm, ?_, hat.2⟩
      rw [hat.1, Option.getD_none, ← hdest, hfolder]
  · simp [(hc.follower hch).2 rfl] at hnone

/-- A move in the worker's hands that is still pending can be settled. -/
theorem settleAt_isSome {store : Store} (hheld : n ∈ s.queue.held)
    (hn : (s.queue.db.moves.lookup n).isSome) :
    (Arrival.settleAt server s n k store now).isSome := by
  obtain ⟨cur, hcur⟩ := Option.isSome_iff_exists.mp hn
  obtain ⟨⟨out, db⟩, he⟩ : ∃ e, s.queue.db.settle n (server.letter k).uid none now = some e := by
    simp only [Db.settle, hcur, Option.bind_eq_bind, Option.bind_some]
    split
    · exact ⟨_, rfl⟩
    · exact ⟨_, rfl⟩
    · split <;> exact ⟨_, rfl⟩
  have hcan : n ∈ s.queue.held ∧ (server.letter k).uid > 0 := ⟨hheld, server.pos k⟩
  simp [Arrival.settleAt, MoveQueue.step, MoveQueue.settle, he, hcan]

/-- A step that gives a uid to a second row deletes the row of a letter that moved. -/
theorem deleted_of_step (h : Inv server account s) (hg : handsOutOnce s l = false)
    (hs : step server account s l = some s') :
    ∃ r ∈ s'.moved, s'.queue.db.messages.lookup r = none := by
  cases l with
  | settle n store now =>
    simp only [Arrival.step, Option.map_eq_some_iff, Prod.exists] at hs
    obtain ⟨s₁, took, hs, rfl⟩ := hs
    exact h.deleted rfl hg hs
  | settleArrival k store now =>
    simp only [handsOutOnce] at hg
    split at hg
    · next n hstage =>
      obtain ⟨hfolder, hheld⟩ := h.chosen k n hstage
      have hn : (s.queue.db.moves.lookup n).isSome := by
        cases hnone : s.queue.db.moves.lookup n with
        | none => simp [handsOut, hnone] at hg
        | some cur => rfl
      have hsome : (settleAt server s n k store now).isSome := settleAt_isSome hheld hn
      obtain ⟨⟨s₁, took⟩, hsettle⟩ := Option.isSome_iff_exists.mp hsome
      simp only [Arrival.step, hstage, hsettle, Option.some.injEq] at hs
      subst hs
      obtain ⟨r, hr, hgone⟩ := h.deleted hfolder hg hsettle
      exact ⟨r, hr, hgone⟩
    · cases hg
  | _ => cases hg

/-- **The runs in which no row of a moved letter goes** are those that give each uid to one row. -/
theorem undeleted_iff : (system server account).ReachesUnder (fun s l => ∀ s',
      (system server account).step s l = some s' →
        ∀ r ∈ s'.moved, (s'.queue.db.messages.lookup r).isSome) s ↔
    (system server account).ReachesUnder (fun s l => handsOutOnce s l = true) s := by
  refine inv.reachesUnder_iff (P := fun s => ∀ r ∈ s.moved,
    (s.queue.db.messages.lookup r).isSome) (fun s h r hr => ?_) fun s l s' h hg hs hrows => ?_
  · obtain ⟨m, hm⟩ := h.rows.kept r hr
    exact Option.isSome_of_eq_some hm
  · obtain ⟨r, hr, hgone⟩ := deleted_of_step h (Bool.eq_false_of_not_eq_true hg) hs
    have hsome := hrows r hr
    simp [hgone] at hsome

end Arrival

end MailExpert.MoveQueue
