import MailExpert.MoveQueue.Invariant

/-!
# A move goes somewhere else

A claimable move is queued with a known source. That its destination is another folder is checked
where it is enqueued; its source is written again when its predecessor ends, and its destination
when it is moved once more, and neither write looks at the other column. `staysApart` says where the
two differ all the same, and under it no claimable move is from a folder into the same folder
(`claimable_apart`). Every step that does not meet it queues one that is
(`not_apart_of_step`).
-/

namespace MailExpert.MoveQueue

/-- The step gives no move the same folder as source and destination. -/
def staysApart (s : State) : Label → Bool
  | .retargetPending account r target _ => (s.db.pendingMove account r).all fun (_, _, op) =>
    op.srcUid = none ∨ op.srcFolder ≠ target.dest
  | .settle n _ folder _ _ => (s.db.moves.lookup n).all fun cur =>
    (s.db.follower n).all fun (_, next) => next.destFolder ≠ folder.getD cur.destFolder
  | .revert n _ => (s.db.moves.lookup n).all fun cur =>
    (s.db.follower n).all fun (_, next) => next.destFolder ≠ cur.srcFolder
  | _ => true

/-- A move with a known source goes to another folder. -/
def Move.Apart (mv : Move) : Prop := mv.srcUid ≠ none → mv.destFolder ≠ mv.srcFolder

/-- What the worker's claim may take. -/
def Move.Claimable (mv : Move) : Prop := mv.state = .queued ∧ mv.srcUid ≠ none

def Apart (db : Db) : Prop := ∀ n mv, db.moves.lookup n = some mv → mv.Apart

variable {s s' : State} {l : Label} {db db' : Db} {r n : Nat} {mv : Move} {c c' : Chain}

theorem Apart.relinked (h : Apart db) (hr : Relinked db db') : Apart db' := by
  intro n mv hn hs
  obtain ⟨old, hold, hlink⟩ := hr.lookup hn
  rw [hlink.destFolder, hlink.srcFolder]
  apply h n old hold
  rwa [← hlink.srcUid]

theorem Apart.rowWrite (h : Apart db) (hw : RowWrite db db' r c')
    (hc' : ∀ n mv, (n, mv) ∈ c'.moves → mv.Apart) : Apart db' := by
  intro n mv hn
  rcases hw.lookup hn with hmem | hold
  · exact hc' n mv hmem
  · exact h n mv hold

theorem Apart.enqueueRows {account now : Nat} {target : Target} {rowIds : List Nat}
    (hch : Chained db) (h : Apart db) : Apart (db.enqueueRows account rowIds target now) := by
  refine (hch.enqueueRows ?_ rowIds h).2
  intro db db' r m _ hdb _ hd hw
  refine hdb.rowWrite hw fun n mv hmem _ => ?_
  simp only [Chain.mem_one, Prod.mk.injEq] at hmem
  rw [hmem.2]
  exact hd.symm

/-- The moves of a row after a step, when those before it were apart. -/
theorem Chain.Step.apart (hs : Chain.Step l s.db r c c') (hch : Chained s.db) (hc : At s.db r c)
    (hg : staysApart s l = true) (h : Apart s.db)
    (hmem : (n, mv) ∈ c'.moves) : mv.Apart := by
  cases hs with
  | cancelledNext _ =>
    simp only [mem_one, Prod.mk.injEq] at hmem
    have hp := h _ _ hc.first.1
    rw [hmem.2]
    exact hp
  | retargeted hl hp _ =>
    simp only [mem_one, Prod.mk.injEq] at hmem
    simp only [hl, staysApart, hp, Option.all_some, decide_eq_true_eq] at hg
    rw [hmem.2]
    exact fun hknown => (hg.resolve_left hknown).symm
  | retargetedNext _ =>
    simp only [mem_two, Prod.mk.injEq] at hmem
    rcases hmem with ⟨-, rfl⟩ | ⟨-, rfl⟩
    · exact h _ _ hc.first.1
    · exact fun hknown => absurd hc.wellFormed.2.2.1 hknown
  | followed _ _ =>
    simp only [mem_two, Prod.mk.injEq] at hmem
    rcases hmem with ⟨-, rfl⟩ | ⟨-, rfl⟩
    · exact h _ _ hc.only.1
    · exact fun hknown => absurd rfl hknown
  | settledNext hl =>
    simp only [mem_one, Prod.mk.injEq] at hmem
    simp only [hl, staysApart, hc.first.1, (hc.follower hch).2 rfl, Option.all_some,
      decide_eq_true_eq] at hg
    rw [hmem.2]
    exact fun _ => hg
  | revertedNext hl =>
    simp only [mem_one, Prod.mk.injEq] at hmem
    simp only [hl, staysApart, hc.first.1, (hc.follower hch).2 rfl, Option.all_some,
      decide_eq_true_eq] at hg
    rw [hmem.2]
    exact fun _ => hg
  | _ => simp at hmem

theorem Apart.step (hinv : Inv s) (h : Apart s.db) (hg : staysApart s l = true)
    (hstep : step s l = some s') : Apart s'.db := by
  have hch := hinv.chained
  refine step_tables hinv hstep (fun _ => h.relinked) ?_ ?_
  · rintro account rowIds target now -
    exact h.enqueueRows hch
  · intro db' r c c' hc hs hw
    refine h.rowWrite hw fun n mv hmem => ?_
    exact hs.apart hch hc hg h hmem

theorem Apart.init (h : Initial s) : Apart s.db := by
  intro n mv hn
  rw [h.2.1] at hn
  cases hn

/-- **A move always goes somewhere else**, in every run whose steps stay apart. -/
theorem claimable_apart (h : system.ReachesUnder (fun s l => staysApart s l = true) s)
    (hn : s.db.moves.lookup n = some mv) (hc : mv.Claimable) : mv.destFolder ≠ mv.srcFolder := by
  have hinv := inv.strengthen (G := fun s l => staysApart s l = true) (I := fun s => Apart s.db)
    (fun s => Apart.init) fun s l s' hinv h hg hstep => h.step hinv hg hstep
  exact (hinv.reachesUnder h).2 n mv hn hc.2

/-- A row's only move, when it has the same folder as source and destination. -/
theorem RowWrite.claimable (hw : RowWrite db db' r (.one n mv)) (hq : mv.state = .queued)
    (hd : mv.destFolder = mv.srcFolder) :
    ∃ n mv, db'.moves.lookup n = some mv ∧ mv.Claimable ∧ mv.destFolder = mv.srcFolder := by
  obtain ⟨⟨u, hu, -⟩, -⟩ := hw.at'.wellFormed
  exact ⟨n, mv, hw.at'.only.1, ⟨hq, by simp [hu]⟩, hd⟩

/-- A step that does not stay apart queues a move from a folder into itself. -/
theorem not_apart_of_step (hinv : Inv s) (hg : staysApart s l = false)
    (hstep : step s l = some s') : ∃ n mv, s'.db.moves.lookup n = some mv ∧ mv.Claimable ∧
      mv.destFolder = mv.srcFolder := by
  have hch := hinv.chained
  cases l with
  | retargetPending account r target now =>
    obtain ⟨⟨m, n, op⟩, hp, hop⟩ := (Option.all_eq_false _ _).mp hg
    simp only [decide_eq_false_iff_not, not_or, not_not] at hop
    simp only [step, Option.map_eq_some_iff] at hstep
    obtain ⟨db, he, rfl⟩ := hstep
    obtain ⟨c, hc⟩ := hch.chain r
    rcases hc.retargetPending hch he with ⟨m', n', mv, rfl, hp', hq, hw⟩ | ⟨p, pv, k, kv, rfl, -⟩
    · cases hp.symm.trans hp'
      exact hw.claimable hq hop.2.symm
    · -- the move a row waits for second has no source yet
      obtain ⟨-, -, hone | ⟨p', pv', htwo⟩⟩ := hc.pending hp
      · cases hone
      · cases htwo
        exact absurd hc.wellFormed.2.2.1 hop.1
  | settle n newUid folder store now =>
    obtain ⟨cur, hcur, hg⟩ := (Option.all_eq_false _ _).mp hg
    obtain ⟨⟨k, kv⟩, hk, hd⟩ := (Option.all_eq_false _ _).mp hg
    simp only [step, Option.ite_none_right_eq_some] at hstep
    obtain ⟨⟨hheld, hu⟩, hstep⟩ := hstep
    obtain ⟨out, he⟩ := settle_db hstep
    obtain ⟨c, hc⟩ := hch.chain cur.messageRowId
    rcases hinv.starts hheld hcur hc with rfl | ⟨k', kv', rfl⟩
    · cases ((hc.follower hch).1 rfl).symm.trans hk
    · cases ((hc.follower hch).2 rfl).symm.trans hk
      simp only [decide_eq_false_iff_not, not_not] at hd
      exact (hc.settle_two hch hu he).1.claimable hc.wellFormed.2.2.2.2.1 hd
  | revert n now =>
    obtain ⟨cur, hcur, hg⟩ := (Option.all_eq_false _ _).mp hg
    obtain ⟨⟨k, kv⟩, hk, hd⟩ := (Option.all_eq_false _ _).mp hg
    simp only [step, revert, Option.ite_none_right_eq_some, Option.map_eq_some_iff,
      Prod.exists] at hstep
    obtain ⟨hheld, out, db, he, rfl⟩ := hstep
    obtain ⟨c, hc⟩ := hch.chain cur.messageRowId
    rcases hinv.starts hheld hcur hc with rfl | ⟨k', kv', rfl⟩
    · cases ((hc.follower hch).1 rfl).symm.trans hk
    · cases ((hc.follower hch).2 rfl).symm.trans hk
      simp only [decide_eq_false_iff_not, not_not] at hd
      exact (hc.revert_two hch he).1.claimable hc.wellFormed.2.2.2.2.1 hd
  | _ => cases hg

/-- **The runs that queue no move from a folder into itself** are those whose steps stay apart. -/
theorem staysApart_iff : system.ReachesUnder (fun s l => ∀ s', system.step s l = some s' →
      ∀ n mv, s'.db.moves.lookup n = some mv → mv.Claimable → mv.destFolder ≠ mv.srcFolder) s ↔
    system.ReachesUnder (fun s l => staysApart s l = true) s := by
  have hinv := inv.strengthen (G := fun s l => staysApart s l = true) (I := fun s => Apart s.db)
    (fun s => Apart.init) fun s l s' hinv h hg hstep => h.step hinv hg hstep
  refine hinv.reachesUnder_iff (P := fun s => ∀ n mv, s.db.moves.lookup n = some mv →
    mv.Claimable → mv.destFolder ≠ mv.srcFolder) (fun s h n mv hn hc => h.2 n mv hn hc.2)
    fun s l s' h hg hs hapart => ?_
  obtain ⟨n, mv, hn, hc, heq⟩ := not_apart_of_step h.1 (Bool.eq_false_of_not_eq_true hg) hs
  exact hapart n mv hn hc heq

/-- A letter moved out of the inbox and back while the first move is on its way. -/
theorem not_claimable_apart : ¬∀ s, system.Reachable s → ∀ n mv,
    s.db.moves.lookup n = some mv → mv.Claimable → mv.destFolder ≠ mv.srcFolder := by
  have htrace : (system.exec TransitionSystem.anyStep
      (.ofRows [(7, { account := 1, folder := "INBOX", uid := 40, messageId := some "<a@b>" })])
      [.enqueueRows 1 [7] { dest := "Work" } 10, .claim [1] 11, .markSent [1] 11,
        .followPending 1 7 { dest := "INBOX" } 12, .revert 1 13]).any
      (fun s => (s.db.moves.lookup 2).any fun mv =>
        mv.state = .queued ∧ mv.srcUid ≠ none ∧ mv.destFolder = mv.srcFolder) = true := by
    decide
  obtain ⟨s, hs, hp⟩ := TransitionSystem.reaches_of_exec (Initial.ofRows (by simp)) htrace
  intro h
  obtain ⟨mv, hn, hmv⟩ := (Option.any_eq_true _ _).mp hp
  obtain ⟨hq, hsrc, hd⟩ := of_decide_eq_true hmv
  exact h s hs 2 mv hn ⟨hq, hsrc⟩ hd

/-- A letter moved on while its first move is on its way, which then ends at its destination. -/
theorem claimable_apart_followed : ∃ s : State, ∃ mv, s.db.moves.lookup 2 = some mv ∧
    mv.Claimable ∧ mv.srcUid = some 90 ∧ mv.destFolder ≠ mv.srcFolder := by
  have htrace : (system.exec (fun s l => staysApart s l = true)
      (.ofRows [(7, { account := 1, folder := "INBOX", uid := 40, messageId := some "<a@b>" })])
      [.enqueueRows 1 [7] { dest := "Work" } 10, .claim [1] 11, .markSent [1] 11,
        .followPending 1 7 { dest := "Done" } 12, .settle 1 90 none .stored 13]).any
      (fun s => (s.db.moves.lookup 2).any fun mv =>
        mv.state = .queued ∧ mv.srcUid = some 90) = true := by
    decide
  obtain ⟨s, hs, hp⟩ := TransitionSystem.reaches_of_exec (Initial.ofRows (by simp)) htrace
  obtain ⟨mv, hn, hmv⟩ := (Option.any_eq_true _ _).mp hp
  obtain ⟨hq, hsrc⟩ := of_decide_eq_true hmv
  have hc : mv.Claimable := ⟨hq, by simp [hsrc]⟩
  exact ⟨s, mv, hn, hc, hsrc, claimable_apart hs hn hc⟩

end MailExpert.MoveQueue
