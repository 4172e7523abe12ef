import MailExpert.Expunge.Claimed
import MailExpert.Expunge.System

/-!
# Who holds which row

What each statement does to the rows and their claims, and what every step leaves of them (`Keeps`): a token
that is gone from a row never comes back (`Keeps.back`), and a call of a request loses no row but those it
releases or that are gone (`Keeps.held`).
-/

namespace MailExpert.Expunge

open MoveQueue (Message)

variable {s t : State} {l : Label} {g : Group} {id token k now r : Nat} {m m' : Message} {cl : Claim}
  {folder : String} {rows : List (Nat × Int)} {gone : Nat → Bool} {q : Request} {c : Call}

namespace State

def Takes (s : State) (g : Group) (id : Nat) : Prop := ∃ m, s.messages.lookup id = some m ∧ claimable g id m = true

theorem mem_claimForExpunge (now : Nat) : id ∈ (s.claimForExpunge g now).2 ↔ s.Takes g id := by
  rw [claimForExpunge, List.mem_map]
  constructor
  · rintro ⟨⟨id', m⟩, hmem, rfl⟩
    exact ⟨m, Table.mem_select.mp hmem⟩
  · rintro ⟨m, hm⟩
    exact ⟨(id, m), Table.mem_select.mpr hm, rfl⟩

theorem messages_claimForExpunge : (s.claimForExpunge g now).1.messages.lookup id =
    (s.messages.lookup id).map fun m => if claimable g id m then { m with expungeClaim := true } else m := by
  show (Table.update s.messages (claimable g) fun _ m => { m with expungeClaim := true }).lookup id = _
  rw [Table.lookup_update]

theorem claims_claimForExpunge : (s.claimForExpunge g now).1.claims.lookup id =
    if id ∈ (s.claimForExpunge g now).2 then some { token := s.nextToken, claimedAt := now }
    else s.claims.lookup id := by
  have hrows : (s.messages.select (claimable g)).map (fun e => (e.1, Claim.mk s.nextToken now)) =
      (s.claimForExpunge g now).2.map fun id => (id, Claim.mk s.nextToken now) := by
    rw [claimForExpunge, List.map_map]
    rfl
  show (Table.insertAll s.claims _).lookup id = _
  rw [hrows, Table.lookup_insertAll_const]

theorem claims_claimForExpunge_of_takes (h : s.Takes g id) :
    (s.claimForExpunge g now).1.claims.lookup id = some { token := s.nextToken, claimedAt := now } :=
  claims_claimForExpunge.trans (if_pos ((mem_claimForExpunge now).mpr h))

theorem claims_claimForExpunge_of_not (h : ¬s.Takes g id) :
    (s.claimForExpunge g now).1.claims.lookup id = s.claims.lookup id :=
  claims_claimForExpunge.trans (if_neg fun hmem => h ((mem_claimForExpunge now).mp hmem))

theorem mem_finishExpunge : (id, m) ∈ (s.finishExpunge token folder rows).2 ↔
    s.messages.lookup id = some m ∧ s.removable token folder rows id m = true := Table.mem_select

theorem messages_finishExpunge : (s.finishExpunge token folder rows).1.messages.lookup id =
    (s.messages.lookup id).filter fun m => !s.removable token folder rows id m := Table.lookup_delete

theorem claims_finishExpunge : (s.finishExpunge token folder rows).1.claims.lookup id =
    if id ∈ (s.finishExpunge token folder rows).2.map (·.1) then none else s.claims.lookup id := by
  refine Table.lookup_delete_key.trans ?_
  simp only [decide_eq_true_eq]
  rfl

theorem messages_unclaim : (s.unclaim gone).messages.lookup id =
    (s.messages.lookup id).map fun m => if gone id then { m with expungeClaim := false } else m := by
  show (Table.update s.messages (fun id _ => gone id) fun _ m => { m with expungeClaim := false }).lookup id = _
  rw [Table.lookup_update]

theorem claims_unclaim : (s.unclaim gone).claims.lookup id = if gone id then none else s.claims.lookup id :=
  Table.lookup_delete_key

theorem holds_iff : s.holds token id = true ↔ ∃ cl, s.claims.lookup id = some cl ∧ cl.token = token := by
  rw [holds, Option.any_eq_true]
  simp

theorem holds_congr (h : t.claims.lookup id = s.claims.lookup id) : t.holds token id = s.holds token id := by
  rw [holds, holds, h]

structure Holds (s : State) (token id : Nat) (m : Message) : Prop where
  row : s.messages.lookup id = some m
  token : s.holds token id = true

end State

/-! ## What holds of the columns in every state -/

structure Columns (s : State) : Prop where
  queue : MoveQueue.Inv s.queue
  column {id : Nat} : (s.claims.lookup id).isSome = true ↔ ∃ m, s.messages.lookup id = some m ∧ m.expungeClaim = true
  token {id : Nat} {cl : Claim} : s.claims.lookup id = some cl → cl.token < s.nextToken
  pos {id : Nat} {m : Message} : s.messages.lookup id = some m → m.expungeClaim = true → 0 < m.uid

theorem Columns.claimed (h : Columns s) (hh : s.Holds token id m) : MoveQueue.Claimed s.queue.db id m := by
  obtain ⟨cl, hcl, -⟩ := State.holds_iff.mp hh.token
  obtain ⟨m', hm', hclaim⟩ := h.column.mp (Option.isSome_of_eq_some hcl)
  cases hm'.symm.trans hh.row
  exact ⟨hh.row, hclaim, h.pos hh.row hclaim⟩

theorem Columns.not_takes (h : Columns s) (hh : s.Holds token id m) : ¬s.Takes g id := by
  rintro ⟨m', hm', hclaimable⟩
  cases hm'.symm.trans hh.row
  simp [State.claimable, (h.claimed hh).claim] at hclaimable

/-- The rows stay where they are, and those whose move is pending stay at all. -/
theorem queueInv_setMessages {queue : MoveQueue.State} {messages : Table Nat Message}
    (h : MoveQueue.Inv queue)
    (hsame : ∀ r m', messages.lookup r = some m' →
      ∃ m, queue.db.messages.lookup r = some m ∧ m.uid = m'.uid ∧ m.folder = m'.folder)
    (hkept : ∀ r m, queue.db.messages.lookup r = some m → m.uid ≤ 0 → ∃ m', messages.lookup r = some m') :
    MoveQueue.Inv { queue with db := { queue.db with messages := messages } } :=
  ⟨h.chained.setMessages hsame hkept, h.held⟩

theorem Columns.claimForExpunge (h : Columns s) (hpos : ∀ e ∈ g.rows, 0 ≤ e.2) :
    Columns (s.claimForExpunge g now).1 where
  queue := by
    refine queueInv_setMessages h.queue (fun id m' hm' => ?_) fun id m hm _ => ?_
    · obtain ⟨m, hm, rfl⟩ := Option.map_eq_some_iff.mp ((@State.messages_claimForExpunge s g id now).symm.trans hm')
      refine ⟨m, hm, ?_⟩
      split
      · exact ⟨rfl, rfl⟩
      · exact ⟨rfl, rfl⟩
    · exact ⟨_, (@State.messages_claimForExpunge s g id now).trans (congrArg _ hm)⟩
  column {id} := by
    rw [State.messages_claimForExpunge]
    by_cases htakes : s.Takes g id
    · obtain ⟨m, hm, hclaimable⟩ := htakes
      have htakes : s.Takes g id := ⟨m, hm, hclaimable⟩
      rw [State.claims_claimForExpunge_of_takes htakes, hm]
      simp [hclaimable]
    · rw [State.claims_claimForExpunge_of_not htakes, h.column]
      cases hm : s.messages.lookup id with
      | none => simp
      | some m =>
        have hno : State.claimable g id m = false := by
          rw [Bool.eq_false_iff]
          exact fun hc => htakes ⟨m, hm, hc⟩
        simp [hno]
  token {id cl} hcl := by
    show cl.token < s.nextToken + 1
    by_cases htakes : s.Takes g id
    · rw [State.claims_claimForExpunge_of_takes htakes] at hcl
      cases hcl
      exact Nat.lt_succ_self _
    · rw [State.claims_claimForExpunge_of_not htakes] at hcl
      exact Nat.lt_succ_of_lt (h.token hcl)
  pos {id m'} hm' hclaim := by
    rw [State.messages_claimForExpunge] at hm'
    obtain ⟨m, hm, rfl⟩ := Option.map_eq_some_iff.mp hm'
    split at hclaim
    next hclaimable =>
      rw [if_pos hclaimable]
      simp only [State.claimable, decide_eq_true_eq] at hclaimable
      exact (h.queue.chained.idle_of_uid hm (hpos _ hclaimable.1)).1
    next hno =>
      rw [if_neg hno]
      exact h.pos hm hclaim

theorem Columns.finishExpunge (h : Columns s) : Columns (s.finishExpunge token folder rows).1 where
  queue := by
    refine queueInv_setMessages h.queue (fun id m' hm' => ?_) fun id m hm hneg => ?_
    · have hm' := (Option.filter_eq_some_iff.mp (State.messages_finishExpunge.symm.trans hm')).1
      exact ⟨m', hm', rfl, rfl⟩
    · refine ⟨m, State.messages_finishExpunge.trans (Option.filter_eq_some_iff.mpr ⟨hm, ?_⟩)⟩
      cases hrem : s.removable token folder rows id m with
      | false => rfl
      | true =>
        simp only [State.removable, decide_eq_true_eq] at hrem
        have hclaimed := h.claimed ⟨hm, hrem.2.2⟩
        exact absurd hclaimed.pos (not_lt.mpr hneg)
  column {id} := by
    rw [State.claims_finishExpunge, State.messages_finishExpunge]
    split
    next hmem =>
      obtain ⟨⟨id', m⟩, hremoved, rfl⟩ := List.mem_map.mp hmem
      obtain ⟨hm, hrem⟩ := State.mem_finishExpunge.mp hremoved
      simp [hm, hrem]
    next hkept =>
      rw [h.column]
      cases hm : s.messages.lookup id with
      | none => simp
      | some m =>
        have hno : s.removable token folder rows id m = false := by
          rw [Bool.eq_false_iff]
          exact fun hrem => hkept (List.mem_map.mpr ⟨(id, m), State.mem_finishExpunge.mpr ⟨hm, hrem⟩, rfl⟩)
        simp [hno, Option.filter]
  token {id cl} hcl := by
    rw [State.claims_finishExpunge] at hcl
    split at hcl
    · cases hcl
    · exact h.token hcl
  pos {id m} hm hclaim := by
    rw [State.messages_finishExpunge, Option.filter_eq_some_iff] at hm
    exact h.pos hm.1 hclaim

theorem Columns.unclaim (h : Columns s) : Columns (s.unclaim gone) where
  queue := by
    refine queueInv_setMessages h.queue (fun id m' hm' => ?_) fun id m hm _ => ?_
    · obtain ⟨m, hm, rfl⟩ := Option.map_eq_some_iff.mp (State.messages_unclaim.symm.trans hm')
      refine ⟨m, hm, ?_⟩
      split
      · exact ⟨rfl, rfl⟩
      · exact ⟨rfl, rfl⟩
    · exact ⟨_, State.messages_unclaim.trans (congrArg _ hm)⟩
  column {id} := by
    rw [State.claims_unclaim, State.messages_unclaim]
    cases hgone : gone id with
    | true => cases s.messages.lookup id <;> simp
    | false => simpa using h.column
  token {id cl} hcl := by
    rw [State.claims_unclaim] at hcl
    split at hcl
    · cases hcl
    · exact h.token hcl
  pos {id m'} hm' hclaim := by
    rw [State.messages_unclaim] at hm'
    obtain ⟨m, hm, rfl⟩ := Option.map_eq_some_iff.mp hm'
    split at hclaim
    · cases hclaim
    next hno =>
      rw [if_neg hno]
      exact h.pos hm hclaim

/-! ## Steps -/

/-- A step that gives up no row held with a token of `P`. -/
structure Keeps (P : Nat → Prop) (s t : State) : Prop where
  columns : Columns t
  next : s.nextToken ≤ t.nextToken
  lookups : ∀ e ∈ s.lookups, e ∈ t.lookups
  back {k id : Nat} {m : Message} : k < s.nextToken → t.Holds k id m → s.Holds k id m
  held {k id : Nat} {m : Message} : P k → s.holds k id = true → t.messages.lookup id = some m → t.holds k id = true
  known {id : Nat} {m : Message} : s.known id = true → t.messages.lookup id = some m →
    ∃ m', s.messages.lookup id = some m'

namespace Keeps

variable {P : Nat → Prop} {t' : State}

theorem refl (h : Columns s) : Keeps P s s :=
  ⟨h, le_rfl, fun _ he => he, fun _ hh => hh, fun _ hh _ => hh, fun _ hm => ⟨_, hm⟩⟩

theorem congr (h : Keeps P s t) (hqueue : t'.queue = t.queue) (hclaims : t'.claims = t.claims)
    (hnext : t'.nextToken = t.nextToken) (hlookups : ∀ e ∈ t.lookups, e ∈ t'.lookups) : Keeps P s t' := by
  have hmessages : t'.messages = t.messages := congrArg (·.db.messages) hqueue
  have hholds : ∀ k id, t'.holds k id = t.holds k id :=
    fun k id => State.holds_congr (congrArg (·.lookup id) hclaims)
  refine ⟨⟨hqueue ▸ h.columns.queue, fun {id} => ?_, fun {id cl} hcl => ?_, fun {id m} hm hclaim => ?_⟩, hnext ▸ h.next,
    fun e he => hlookups e (h.lookups e he), fun hk hh => ?_, fun hp hh hm => ?_, fun hknown hm => ?_⟩
  · rw [hclaims, hmessages]
    exact h.columns.column
  · rw [hclaims] at hcl
    rw [hnext]
    exact h.columns.token hcl
  · exact h.columns.pos (hmessages ▸ hm) hclaim
  · exact h.back hk ⟨hmessages ▸ hh.row, (hholds _ _).symm.trans hh.token⟩
  · rw [hholds]
    exact h.held hp hh (hmessages ▸ hm)
  · exact h.known hknown (hmessages ▸ hm)

theorem claim (h : Columns s) (hpos : ∀ e ∈ g.rows, 0 ≤ e.2) : Keeps P s (s.claimForExpunge g now).1 where
  columns := h.claimForExpunge hpos
  next := Nat.le_succ _
  lookups _ he := he
  back {k id m'} hk hh := by
    obtain ⟨cl, hcl, rfl⟩ := State.holds_iff.mp hh.token
    have hnot : ¬s.Takes g id := by
      intro htakes
      rw [State.claims_claimForExpunge_of_takes htakes] at hcl
      cases hcl
      exact lt_irrefl _ hk
    rw [State.claims_claimForExpunge_of_not hnot] at hcl
    obtain ⟨m, hm, rfl⟩ := Option.map_eq_some_iff.mp ((@State.messages_claimForExpunge s g id now).symm.trans hh.row)
    have hno : ¬State.claimable g id m = true := fun hc => hnot ⟨m, hm, hc⟩
    rw [if_neg hno]
    exact ⟨hm, State.holds_iff.mpr ⟨cl, hcl, rfl⟩⟩
  held {k id m'} _ hh hm' := by
    obtain ⟨m, hm, -⟩ := Option.map_eq_some_iff.mp ((@State.messages_claimForExpunge s g id now).symm.trans hm')
    rw [State.holds_congr (State.claims_claimForExpunge_of_not (h.not_takes ⟨hm, hh⟩))]
    exact hh
  known {id m'} _ hm' := by
    obtain ⟨m, hm, -⟩ := Option.map_eq_some_iff.mp ((@State.messages_claimForExpunge s g id now).symm.trans hm')
    exact ⟨m, hm⟩

theorem finish (h : Columns s) : Keeps P s (s.finishExpunge token folder rows).1 where
  columns := h.finishExpunge
  next := le_rfl
  lookups _ he := he
  back {k id m} _ hh := by
    obtain ⟨cl, hcl, hk⟩ := State.holds_iff.mp hh.token
    rw [State.claims_finishExpunge] at hcl
    split at hcl
    · cases hcl
    · exact ⟨(Option.filter_eq_some_iff.mp (State.messages_finishExpunge.symm.trans hh.row)).1,
        State.holds_iff.mpr ⟨cl, hcl, hk⟩⟩
  held {k id m} _ hh hm := by
    rw [State.messages_finishExpunge, Option.filter_eq_some_iff] at hm
    have hkept : id ∉ (s.finishExpunge token folder rows).2.map (·.1) := by
      intro hmem
      obtain ⟨⟨id', m'⟩, hremoved, rfl⟩ := List.mem_map.mp hmem
      obtain ⟨hm', hrem⟩ := State.mem_finishExpunge.mp hremoved
      cases hm'.symm.trans hm.1
      rw [hrem] at hm
      cases hm.2
    rw [State.holds_congr (State.claims_finishExpunge.trans (if_neg hkept))]
    exact hh
  known {id m} _ hm := by
    rw [State.messages_finishExpunge, Option.filter_eq_some_iff] at hm
    exact ⟨m, hm.1⟩

theorem unclaim (h : Columns s) : Keeps (fun k => ∀ id, s.holds k id = true → gone id = false) s (s.unclaim gone) where
  columns := h.unclaim
  next := le_rfl
  lookups _ he := he
  back {k id m'} _ hh := by
    obtain ⟨cl, hcl, hk⟩ := State.holds_iff.mp hh.token
    rw [State.claims_unclaim] at hcl
    split at hcl
    · cases hcl
    next hno =>
      obtain ⟨m, hm, rfl⟩ := Option.map_eq_some_iff.mp (State.messages_unclaim.symm.trans hh.row)
      rw [if_neg hno]
      exact ⟨hm, State.holds_iff.mpr ⟨cl, hcl, hk⟩⟩
  held {k id m} hp hh _ := by
    have hclaims : (s.unclaim gone).claims.lookup id = s.claims.lookup id :=
      State.claims_unclaim.trans (if_neg (Bool.eq_false_iff.mp (hp id hh)))
    rw [State.holds_congr hclaims]
    exact hh
  known {id m'} _ hm' := by
    obtain ⟨m, hm, -⟩ := Option.map_eq_some_iff.mp (State.messages_unclaim.symm.trans hm')
    exact ⟨m, hm⟩

theorem queue {l : MoveQueue.Label} (h : Columns s) (hstep : s.queueStep l = some t) : Keeps P s t := by
  unfold State.queueStep at hstep
  obtain ⟨hadmits, hstep⟩ := Option.ite_none_right_eq_some.mp hstep
  obtain ⟨queue, hq, rfl⟩ := Option.map_eq_some_iff.mp hstep
  have hclaims : ∀ {id m'}, queue.db.messages.lookup id = some m' →
      (s.claims.delete fun id _ => (queue.db.messages.lookup id).isNone).lookup id = s.claims.lookup id := by
    intro id m' hm'
    rw [Table.lookup_delete_key, hm']
    rfl
  -- a row that is new is neither claimed nor known
  have hold : ∀ {id m'}, queue.db.messages.lookup id = some m' →
      (∃ m, s.messages.lookup id = some m ∧ m.expungeClaim = m'.expungeClaim) ∨
      (m'.expungeClaim = false ∧ s.known id = false ∧ s.messages.lookup id = none) := by
    intro id m' hm'
    rcases MoveQueue.step_sameClaims hq hm' with hold | rfl
    · exact .inl hold
    · simp only [State.admits, Bool.and_eq_true, Bool.not_eq_true'] at hadmits
      simp only [MoveQueue.step, Option.ite_none_right_eq_some] at hq
      exact .inr ⟨hadmits.1, hadmits.2, hq.1.1⟩
  have hstays : ∀ {id m'}, queue.db.messages.lookup id = some m' → m'.expungeClaim = true →
      s.messages.lookup id = some m' := by
    intro id m' hm' hclaim
    rcases hold hm' with ⟨m, hm, hsame⟩ | ⟨hfree, -⟩
    · have hclaimed : MoveQueue.Claimed s.queue.db id m :=
        ⟨hm, hsame.trans hclaim, h.pos hm (hsame.trans hclaim)⟩
      exact MoveQueue.claimed_stays h.queue hq hclaimed hm' ▸ hm
    · rw [hclaim] at hfree
      cases hfree
  have hcolumn : ∀ {id}, ((s.claims.delete fun id _ => (queue.db.messages.lookup id).isNone).lookup id).isSome = true ↔
      ∃ m, queue.db.messages.lookup id = some m ∧ m.expungeClaim = true := by
    intro id
    cases hm' : queue.db.messages.lookup id with
    | none =>
      rw [Table.lookup_delete_key, hm']
      simp
    | some m' =>
      rw [hclaims hm', h.column]
      rcases hold hm' with ⟨m, hm, hsame⟩ | ⟨hfree, -, hnone⟩
      · simp [hm, hsame]
      · simp [hnone, hfree]
  refine ⟨⟨h.queue.step hq, hcolumn, fun {id cl} hcl => ?_, fun {id m'} hm' hclaim => ?_⟩, le_rfl, fun _ he => he,
    fun {k id m'} _ hh => ?_, fun {k id m'} _ hh hm' => ?_, fun {id m'} hknown hm' => ?_⟩
  · rw [Table.lookup_delete_key] at hcl
    split at hcl
    · cases hcl
    · exact h.token hcl
  · exact h.pos (hstays hm' hclaim) hclaim
  · obtain ⟨cl, hcl, hk⟩ := State.holds_iff.mp hh.token
    obtain ⟨m, hm, hclaim⟩ := hcolumn.mp (Option.isSome_of_eq_some hcl)
    cases hm.symm.trans hh.row
    exact ⟨hstays hm hclaim, State.holds_iff.mpr ⟨cl, (hclaims hm).symm.trans hcl, hk⟩⟩
  · have hsame : (s.claims.delete fun id _ => (queue.db.messages.lookup id).isNone).lookup id = s.claims.lookup id :=
      hclaims hm'
    exact (State.holds_congr hsame).trans hh
  · rcases hold hm' with ⟨m, hm, -⟩ | ⟨-, hnew, -⟩
    · exact ⟨m, hm⟩
    · rw [hknown] at hnew
      cases hnew

end Keeps

end MailExpert.Expunge
