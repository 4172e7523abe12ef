import MailExpert.MailNode.SeatHolding

/-!
# Every step keeps the seats

An action changes its mailbox's row and its seat in one commit, under the lock of the mailbox, and the deletion job touches
no row that an action found closed (`Action.finds`).
-/

namespace MailExpert.MailboxActions

open Seats (Rows Sane Alone confirmSeat releaseSeat dropPendingSeat Row.liveOf_iff lookup_of_without)

section Steps

variable {w w' : World} {i : Nat} {x : Action}

theorem Rightful.congr {box : Nat} {row : Mailbox} (h : Rightful w box row)
    (hknown : box ∈ w.ledger.accounts → box ∈ w'.ledger.accounts)
    (hseated : Seated w'.ledger.rows box ↔ Seated w.ledger.rows box) : Rightful w' box row :=
  ⟨hknown h.known, h.claimed, hseated.trans h.seated⟩

/-- Only the action itself holds the lock of its mailbox. -/
theorem Inv.other {box j : Nat} {y : Action} (h : Inv w) (hi : w.actions[i]? = some x) (hx : x.holds box = true) (hne : j ≠ i)
    (hj : w.actions[j]? = some y) {b : Nat} (hy : y.opens = some b) : b ≠ box := by
  rintro rfl
  exact hne (h.apart j i y x b hj hi (Action.holds_of_opens hy) hx)

theorem Inv.now (h : Inv w) (hi : w.actions[i]? = some x) : x.now ≤ w.ledger.clock :=
  (h.ready x (List.mem_of_getElem? hi)).now

/-- A mailbox is closed and its seat released in one commit. -/
theorem Inv.close {box holdDays : Nat} {row row' : Mailbox} {reason : String} (h : Inv w) (hi : w.actions[i]? = some x)
    (hx : x.holds box = true) (hrow : w.boxes.lookup box = some row) (hclaimed : row'.startedAt.isSome → row'.deleteAfter.isSome)
    (hclosed : isWorking row' = false) : Inv (w.close i x box row' reason holdDays) := by
  have hnow := h.now hi
  have hboxes : ∀ b, b ≠ box → (w.boxes.modify box fun _ => row').lookup b = w.boxes.lookup b := fun b hne =>
    Table.lookup_modify_ne hne
  refine h.acts (u := { x with phase := .committed }) hi ⟨rfl, rfl, le_rfl, fun j y b hne hj hy => ?_,
    fun _ _ _ _ _ => rfl, fun b hb => by simp [Action.holds, Phase.inTransaction] at hb, fun hs => by simp at hs⟩
    (h.ledger.free (Seats.free_releaseSeat h.ledger.sane)) (h.swept.releaseSeat h.ledger.sane) (fun b r hr => ?_)
    (.idle hnow rfl)
  · exact hboxes b (h.other hi hx hne hj hy)
  · by_cases hne : b = box
    · subst hne
      have hold := h.boxes b row hrow
      have hr : (w.boxes.modify b fun _ => row').lookup b = some r := hr
      rw [Table.lookup_modify_self, hrow, Option.map_some] at hr
      cases hr
      refine ⟨hold.known, hclaimed, iff_of_false not_seated_releaseSeat (by simp [hclosed])⟩
    · exact (h.boxes b r ((hboxes b hne).symm.trans hr)).congr id (seated_releaseSeat_ne (Ne.symm hne))

theorem requestDeletion_eq_some {now delay : Nat} {row row' : Mailbox} (h : MailboxDeletion.requestDeletion now delay row = some row') :
    row'.startedAt = none ∧ isWorking row' = false := by
  unfold MailboxDeletion.requestDeletion at h
  split at h
  · cases h
    exact ⟨rfl, rfl⟩
  · cases h

theorem Inv.change (h : Inv w) (hi : w.actions[i]? = some x) (hphase : x.phase = .changing) (hs : changeStep w i x = some w') :
    Inv w' := by
  have hnow := h.now hi
  have hrefused : ∀ {error}, Inv (w.refused i x error) := h.idle hi rfl hnow rfl
  unfold changeStep at hs
  split at hs
  next box delay holdDays hkind =>
    have hx : x.holds box = true := Action.holds_iff.mpr ⟨by rw [hkind]; rfl, by rw [hphase]; rfl⟩
    cases hs
    split
    · exact hrefused
    next row hrow =>
      split
      · exact hrefused
      next row' hrequest =>
        obtain ⟨hstarted, hclosed⟩ := requestDeletion_eq_some hrequest
        exact h.close hi hx hrow (fun hs => by simp [hstarted] at hs) hclosed
  next box holdDays hkind =>
    have hx : x.holds box = true := Action.holds_iff.mpr ⟨by rw [hkind]; rfl, by rw [hphase]; rfl⟩
    cases hs
    split
    · exact hrefused
    next row hrow =>
      split
      · exact h.close hi hx hrow (h.boxes box row hrow).claimed (by simp [isWorking])
      · exact hrefused
  · cases hs
  · cases hs
  · cases hs

/-- The action's mailbox is changed and its seat stays as it is. -/
theorem Inv.setBox {box : Nat} {f : Mailbox → Mailbox} {x' : Action} (h : Inv w) (hi : w.actions[i]? = some x)
    (hx : x.holds box = true) (hkind : x'.kind = x.kind) (hnow : x'.now ≤ w.ledger.clock) (hphase : x'.phase.inTransaction = false)
    (hf : ∀ row, w.boxes.lookup box = some row → Rightful w box (f row)) :
    Inv { w.set i x' with boxes := w.boxes.modify box f } := by
  have hboxes : ∀ b, b ≠ box → (w.boxes.modify box f).lookup b = w.boxes.lookup b := fun b hne => Table.lookup_modify_ne hne
  refine h.acts (u := x') hi ⟨rfl, hkind, le_rfl, fun j y b hne hj hy => hboxes b (h.other hi hx hne hj hy),
    fun _ _ _ _ _ => rfl, fun b hb => by simp [Action.holds, hphase] at hb, fun hs => by simp [hs, Phase.inTransaction] at hphase⟩
    h.ledger h.swept (fun b r hr => ?_) (.idle hnow hphase)
  by_cases hne : b = box
  · subst hne
    have hr : (w.boxes.modify b f).lookup b = some r := hr
    rw [Table.lookup_modify_self, Option.map_eq_some_iff] at hr
    obtain ⟨row, hrow, rfl⟩ := hr
    exact (hf row hrow).congr id Iff.rfl
  · exact (h.boxes b r ((hboxes b hne).symm.trans hr)).congr id Iff.rfl

/-- The seats lock is taken for an action whose mailbox, when it has one, is closed. -/
theorem Inv.takeLock {op : Seats.Op} (h : Inv w) (hi : w.actions[i]? = some x) (hphase : x.phase = .changing) (hfree : w.ledger.tx = none)
    (hop : x.kind.op? = some op)
    (hclosed : ∀ a email purchased, op = .returnSeat a email purchased → ∃ row, w.boxes.lookup a = some row ∧ isWorking row = false)
    (hfound : ∀ box, Action.opens { x with phase := .seating } = some box →
      ∃ row, w.boxes.lookup box = some row ∧ x.finds row = true) :
    Inv { w.set i { x with phase := .seating } with
      ledger := { w.ledger with tx := some { op := op, now := x.now, phase := op.start, gone := [] } } } := by
  have hnow := h.now hi
  have hnobody : ∀ y ∈ w.actions, y.phase ≠ .seating := fun y hy hphase => by
    obtain ⟨tx, htx, -⟩ := (h.ready y hy).holder hphase
    rw [hfree] at htx
    cases htx
  refine h.acts (u := { x with phase := .seating }) hi ⟨rfl, rfl, le_rfl, fun _ _ _ _ _ _ => rfl,
    fun j y _ hj hs => absurd hs (hnobody y (List.mem_of_getElem? hj)), fun b hb => .inl ?_, fun _ => .inr hnobody⟩
    (h.ledger.holder ⟨hnow, fun heq => ?_, fun heq => ?_, fun heq => ?_, fun heq => ?_, fun heq => ?_⟩)
    (fun tx id r htx hid => ?_) (fun b r hr => (h.boxes b r hr).congr id Iff.rfl) ⟨hnow, fun _ => ⟨_, rfl, hop⟩, hfound⟩
  · exact Action.holds_iff.mpr ⟨(Action.holds_iff.mp hb).1, by rw [hphase]; rfl⟩
  · obtain ⟨row, hrow, hclosed⟩ := hclosed _ _ _ heq
    have hright := h.boxes _ row hrow
    exact ⟨hright.known, alone_iff.mpr fun hseated => by simp [hright.seated.mp hseated] at hclosed⟩
  · cases op <;> cases heq
  · cases op <;> cases heq
  · cases op <;> cases heq
  · cases op <;> cases heq
  · cases htx
    cases hid

theorem Inv.lockSeats (h : Inv w) (hi : w.actions[i]? = some x) (hphase : x.phase = .changing)
    (hs : lockSeatsStep w i x = some w') : Inv w' := by
  have hnow := h.now hi
  have hready := h.ready x (List.mem_of_getElem? hi)
  have hrefused : ∀ {error}, Inv (w.refused i x error) := h.idle hi rfl hnow rfl
  unfold lockSeatsStep at hs
  split at hs
  next hfree =>
    obtain ⟨op, hop, rfl⟩ := Option.map_eq_some_iff.mp hs
    split
    next box email purchased hkind =>
      have hx : x.holds box = true := Action.holds_iff.mpr ⟨by rw [hkind]; rfl, by rw [hphase]; rfl⟩
      split
      · exact hrefused
      next row hrow =>
        split
        · exact hrefused
        next hdate =>
          split
          · exact hrefused
          next hstarted =>
            have hstarted : row.startedAt = none := by simpa using hstarted
            split
            next hdeactivated =>
              refine h.setBox hi hx rfl hnow rfl fun row' hrow' => ?_
              cases hrow.symm.trans hrow'
              have hright := h.boxes box row hrow
              refine ⟨hright.known, fun hclaim => by simp [hstarted] at hclaim, hright.seated.trans ?_⟩
              obtain ⟨time, htime⟩ := Option.isSome_iff_exists.mp hdeactivated
              simp [isWorking, htime]
            next hactive =>
              refine h.takeLock hi hphase hfree hop (fun a email' purchased' heq => ?_) (fun b hb => ?_)
              · rw [hkind] at hop
                cases Option.some.inj (hop.trans (congrArg some heq))
                exact ⟨row, hrow, by simpa [isWorking] using fun hnone => absurd hnone (by simpa using hdate)⟩
              · simp only [Action.opens, hkind, Option.some.injEq] at hb
                subst hb
                refine ⟨row, hrow, ?_⟩
                have hdate : row.deleteAfter.isSome = true := Option.isSome_iff_ne_none.mpr (by simpa using hdate)
                have hactive : row.deactivatedAt = none := by simpa using hactive
                simp [Action.finds, hkind, hdate, hstarted, hactive]
    next hnot =>
      refine h.takeLock hi hphase hfree hop (fun a email purchased heq => ?_) (fun b hb => ?_)
      · cases hkind : x.kind with
        | activate box email' purchased' =>
          rw [hkind] at hop
          cases Option.some.inj (hop.trans (congrArg some heq))
          obtain ⟨row, hrow, hfinds⟩ := hready.found a (by simp [Action.opens, hkind, hphase])
          simp only [Action.finds, hkind, Bool.and_eq_true, Option.isNone_iff_eq_none] at hfinds
          obtain ⟨time, htime⟩ := Option.isSome_iff_exists.mp hfinds.1
          exact ⟨row, hrow, by simp [isWorking, htime]⟩
        | cancel box email' purchased' => exact absurd hkind (hnot _ _ _)
        | create email' purchased' =>
          rw [hkind] at hop
          cases Option.some.inj (hop.trans (congrArg some heq))
        | request box delay holdDays => simp [hkind, Kind.op?] at hop
        | deactivate box holdDays => simp [hkind, Kind.op?] at hop
      · cases hkind : x.kind with
        | activate box email' purchased' =>
          simp only [Action.opens, hkind, Option.some.injEq] at hb
          subst hb
          exact hready.found box (by simp [Action.opens, hkind, hphase])
        | cancel box email' purchased' => exact absurd hkind (hnot _ _ _)
        | create email' purchased' => simp [Action.opens, hkind] at hb
        | request box delay holdDays => simp [Action.opens, hkind] at hb
        | deactivate box holdDays => simp [Action.opens, hkind] at hb
  · cases hs

theorem set_self {α : Type} {l : List α} {a : α} (h : l[i]? = some a) : l.set i a = l := by
  obtain ⟨hlt, rfl⟩ := List.getElem?_eq_some_iff.mp h
  exact List.set_getElem_self hlt

/-- A step of the action that holds the seats lock. -/
theorem Inv.underLock {x' : Action} (h : Inv w) (hi : w.actions[i]? = some x) (hphase : x.phase = .seating)
    (hactions : w'.actions = w.actions.set i x') (hkind : x'.kind = x.kind) (hclock : w.ledger.clock ≤ w'.ledger.clock)
    (hframe : ∀ b, x.kind.box? ≠ some b → w'.boxes.lookup b = w.boxes.lookup b) (hledger : Seats.Inv w'.ledger)
    (hswept : Swept w'.ledger) (hboxes : ∀ b row, w'.boxes.lookup b = some row → Rightful w' b row) (hready : x'.Ready w') :
    Inv w' := by
  have hheld : ∀ {b}, x'.holds b = true → x.holds b = true := fun hb =>
    Action.holds_iff.mpr ⟨hkind ▸ (Action.holds_iff.mp hb).1, by rw [hphase]; rfl⟩
  refine h.acts hi ⟨hactions, hkind, hclock, fun j y b hne hj hy => hframe b fun hb => ?_, fun j y hne hj hs => ?_,
    fun b hb => .inl (hheld hb), fun _ => .inl hphase⟩ hledger hswept hboxes hready
  · exact h.other hi (Action.holds_iff.mpr ⟨hb, by rw [hphase]; rfl⟩) hne hj hy rfl
  · exact absurd (h.alone j i y x hj hi hs hphase) hne

theorem txStep_keeps {tx : Seats.Tx} {l : Seats.Label} {ledger ledger' : Seats.Ledger} (h : Seats.TxStep ledger tx l ledger') :
    ledger'.clock = ledger.clock ∧ ledger'.accounts = ledger.accounts := by
  cases h <;> exact ⟨rfl, rfl⟩

theorem Rightful.txStep {tx : Seats.Tx} {l : Seats.Label} {ledger : Seats.Ledger} {box : Nat} {row : Mailbox} (h : Inv w)
    (hr : Rightful w box row) (htx : w.ledger.tx = some tx) (hstep : Seats.TxStep w.ledger tx l ledger) (hreclaim : l ≠ .reclaim)
    (hinsert : l ≠ .insert) (hredate : l ≠ .redate) (hw : w'.ledger = ledger) : Rightful w' box row := by
  refine hr.congr (fun hmem => ?_) ?_
  · rw [hw, (txStep_keeps hstep).2]
    exact hmem
  · rw [hw]
    exact seated_txStep h.swept h.ledger htx hstep hreclaim hinsert hredate

theorem Inv.statement {tx : Seats.Tx} {l : Seats.Label} {ledger : Seats.Ledger} {x' : Action} (h : Inv w)
    (hi : w.actions[i]? = some x) (hphase : x.phase = .seating) (htx : w.ledger.tx = some tx)
    (hstep : Seats.TxStep w.ledger tx l ledger) (hreclaim : l ≠ .reclaim) (hinsert : l ≠ .insert) (hredate : l ≠ .redate)
    (hactions : w'.actions = w.actions.set i x') (hledger : w'.ledger = ledger) (hboxes : w'.boxes = w.boxes)
    (hkind : x'.kind = x.kind) (hready : x'.Ready w') : Inv w' := by
  refine h.underLock hi hphase hactions hkind ?_ (fun b _ => by rw [hboxes]) ?_ ?_ (fun b row hrow => ?_) hready
  · rw [hledger, (txStep_keeps hstep).1]
  · rw [hledger]
    exact h.ledger.txStep htx hstep
  · rw [hledger]
    exact h.swept.txStep h.ledger htx hstep
  · rw [hboxes] at hrow
    exact (h.boxes b row hrow).txStep h htx hstep hreclaim hinsert hredate hledger

/-- A seat is taken for the mailbox of the action, or reserved, and the mailbox works from the same commit on. -/
theorem Inv.taken {tx : Seats.Tx} {l : Seats.Label} {ledger : Seats.Ledger} {boxes : Table Nat Mailbox} {phase : Phase}
    {reserved : Option Nat} (h : Inv w) (hi : w.actions[i]? = some x) (hphase : x.phase = .seating) (htx : w.ledger.tx = some tx)
    (hop : x.kind.op? = some tx.op) (hstep : Seats.TxStep w.ledger tx l ledger) (hl : l = .reclaim ∨ l = .insert)
    (hseated : seated w x = some (boxes, phase)) :
    Inv { w.set i { x with phase := phase, reserved := reserved } with ledger := ledger, boxes := boxes } := by
  have hnow := h.now hi
  obtain ⟨hclock, haccounts⟩ := txStep_keeps hstep
  have hidle : phase.inTransaction = false → ∀ {w'' : World}, w''.ledger.clock = w.ledger.clock →
      Action.Ready w'' { x with phase := phase, reserved := reserved } := fun hp w'' hclock => .idle (by rw [hclock]; exact hnow) hp
  unfold seated at hseated
  split at hseated
  next email purchased hkind =>
    cases hseated
    rw [hkind] at hop
    have hop := (Option.some.inj hop).symm
    rcases hl with rfl | rfl
    · cases hstep with
      | reclaim hown =>
        obtain ⟨a, email', purchased', r, hop', -⟩ := (h.ledger.tx htx).own hown
        cases hop.symm.trans hop'
    · refine h.underLock hi hphase rfl rfl hclock.ge (fun _ _ => rfl) (h.ledger.txStep htx hstep)
        (h.swept.txStep h.ledger htx hstep) (fun b row hrow => (h.boxes b row hrow).congr (fun hmem => ?_) ?_) (hidle rfl hclock)
      · exact haccounts ▸ hmem
      · exact seated_reserved h.swept h.ledger htx hop hstep
  next box email purchased hkind =>
    cases hseated
    rw [hkind] at hop
    obtain ⟨hseat, hothers⟩ := seated_taken h.swept h.ledger htx (Option.some.inj hop).symm hstep hl
    obtain ⟨row, hrow, hfinds⟩ := (h.ready x (List.mem_of_getElem? hi)).found box (by simp [Action.opens, hkind, hphase])
    simp only [Action.finds, hkind, Bool.and_eq_true, Option.isNone_iff_eq_none] at hfinds
    refine h.underLock hi hphase rfl rfl hclock.ge (fun b hb => Table.lookup_modify_ne fun heq => hb (by rw [hkind, heq]; rfl))
      (h.ledger.txStep htx hstep) (h.swept.txStep h.ledger htx hstep) (fun b r hr => ?_) (hidle rfl hclock)
    by_cases hne : b = box
    · subst hne
      have hr : (w.boxes.modify b _).lookup b = some r := hr
      rw [Table.lookup_modify_self, hrow] at hr
      cases hr
      refine ⟨haccounts ▸ (h.boxes b row hrow).known, fun hclaim => by simp [hfinds.1.2] at hclaim, iff_of_true hseat ?_⟩
      simp [isWorking, hfinds.2]
    · exact (h.boxes b r ((Table.lookup_modify_ne hne).symm.trans hr)).congr (fun hmem => haccounts ▸ hmem)
        (hothers b (Ne.symm hne))
  next box email purchased hkind =>
    rw [hkind] at hop
    obtain ⟨hseat, hothers⟩ := seated_taken h.swept h.ledger htx (Option.some.inj hop).symm hstep hl
    split at hseated
    next hrow =>
      cases hseated
      obtain ⟨row, hrow, hclosed⟩ := (Option.any_eq_true _ _).mp hrow
      rw [Bool.and_eq_true, Option.isNone_iff_eq_none] at hclosed
      refine h.underLock hi hphase rfl rfl hclock.ge (fun b hb => Table.lookup_modify_ne fun heq => hb (by rw [hkind, heq]; rfl))
        (h.ledger.txStep htx hstep) (h.swept.txStep h.ledger htx hstep) (fun b r hr => ?_) (hidle rfl hclock)
      by_cases hne : b = box
      · subst hne
        have hr : (w.boxes.modify b _).lookup b = some r := hr
        rw [Table.lookup_modify_self, hrow] at hr
        cases hr
        have hright := h.boxes b row hrow
        exact ⟨haccounts ▸ hright.known, hright.claimed, iff_of_true hseat (by simp [isWorking, hclosed.2])⟩
      · exact (h.boxes b r ((Table.lookup_modify_ne hne).symm.trans hr)).congr (fun hmem => haccounts ▸ hmem)
          (hothers b (Ne.symm hne))
    next => cases hseated
  · cases hseated
  · cases hseated

theorem Inv.seat {l : Seats.Label} (h : Inv w) (hi : w.actions[i]? = some x) (hphase : x.phase = .seating)
    (hs : seatStep w i x l = some w') : Inv w' := by
  have hnow := h.now hi
  have hready := h.ready x (List.mem_of_getElem? hi)
  obtain ⟨tx, htx, hop⟩ := hready.holder hphase
  obtain ⟨ledger, hbind, hs⟩ := Option.bind_eq_some_iff.mp hs
  obtain ⟨tx', htx', hstep⟩ := Option.bind_eq_some_iff.mp hbind
  cases htx.symm.trans htx'
  have hstep := Seats.stepTx_cases hstep
  have hclock := (txStep_keeps hstep).1
  -- while the lock is held the action goes on as it is
  have hstays : ∀ {tx' : Seats.Tx}, ledger.tx = some tx' → tx'.op = tx.op → x.Ready { w with ledger := ledger } :=
    fun {tx'} htx' hop' => ⟨by simpa [hclock] using hnow, fun _ => ⟨tx', htx', by rw [hop', hop]⟩, hready.found⟩
  have hends : ∀ {error : Error}, Action.Ready { w.refused i x error with ledger := ledger } { x with phase := .over (.refused error) } :=
    .idle (by simpa [hclock] using hnow) rfl
  have hself := (set_self hi).symm
  cases hstep with
  | own hop' hr hown =>
    cases hs
    exact h.statement hi hphase htx (.own hop' hr hown) (by simp) (by simp) (by simp) hself rfl rfl rfl (hstays rfl rfl)
  | noOwn hop' =>
    cases hs
    exact h.statement hi hphase htx (.noOwn hop') (by simp) (by simp) (by simp) hself rfl rfl rfl (hstays rfl rfl)
  | sweep hp =>
    cases hs
    exact h.statement hi hphase htx (.sweep hp) (by simp) (by simp) (by simp) hself rfl rfl rfl (hstays rfl rfl)
  | number hph hseat =>
    cases hs
    exact h.statement hi hphase htx (.number hph hseat) (by simp) (by simp) (by simp) hself rfl rfl rfl (hstays rfl rfl)
  | unknown =>
    cases hs
    exact h.statement hi hphase htx .unknown (by simp) (by simp) (by simp) rfl rfl rfl rfl hends
  | full =>
    cases hs
    exact h.statement hi hphase htx .full (by simp) (by simp) (by simp) rfl rfl rfl rfl hends
  | count hph hp hfree =>
    cases hs
    exact h.statement hi hphase htx (.count hph hp hfree) (by simp) (by simp) (by simp) hself rfl rfl rfl (hstays rfl rfl)
  | reclaim hph =>
    cases hs
    split
    next boxes phase hseated => exact h.taken hi hphase htx hop (.reclaim hph) (.inl rfl) hseated
    next => exact h.statement hi hphase htx .abort (by simp) (by simp) (by simp) rfl rfl rfl rfl (.idle hnow rfl)
  | insert hph hrow =>
    cases hs
    split
    next boxes phase hseated => exact h.taken hi hphase htx hop (.insert hph hrow) (.inr rfl) hseated
    next => exact h.statement hi hphase htx .abort (by simp) (by simp) (by simp) rfl rfl rfl rfl (.idle hnow rfl)
  | redate => cases hs
  | abort => cases hs

theorem Inv.fail (h : Inv w) (hi : w.actions[i]? = some x) (hs : failStep w i x = some w') : Inv w' := by
  have hnow := h.now hi
  unfold failStep at hs
  split at hs
  next hphase =>
    cases hs
    exact h.idle hi rfl hnow rfl
  next hphase =>
    cases hs
    exact h.idle hi rfl hnow rfl
  next hphase =>
    cases hs
    exact h.idle hi rfl hnow rfl
  next hphase =>
    cases hs
    exact h.idle hi rfl hnow rfl
  next hphase =>
    cases hs
    obtain ⟨tx, htx, -⟩ := (h.ready x (List.mem_of_getElem? hi)).holder hphase
    exact h.statement hi hphase htx .abort (by simp) (by simp) (by simp) rfl rfl rfl rfl (.idle hnow rfl)
  next hphase =>
    cases hs
    exact h.idle hi rfl hnow rfl
  all_goals cases hs

/-- The row of a new mailbox is inserted and its seat confirmed. -/
theorem Inv.insert {id accountId : Nat} (h : Inv w) (hi : w.actions[i]? = some x) (hs : insertStep w i x id accountId = some w') :
    Inv w' := by
  have hnow := h.now hi
  unfold insertStep at hs
  split at hs
  · cases hs
  next hfree =>
    rw [not_or] at hfree
    obtain ⟨hdeleting, hnew⟩ := hfree
    have hother : ∀ {b row}, w.boxes.lookup b = some row → b ≠ accountId := by
      rintro b row hrow rfl
      exact hnew (h.boxes b row hrow).known
    split at hs
    next hok =>
      cases hs
      refine h.acts (u := { x with phase := .committed }) hi ⟨rfl, rfl, le_rfl, fun j y b hne hj hy => ?_, fun _ _ _ _ _ => rfl,
        fun b hb => by simp [Action.holds, Phase.inTransaction] at hb, fun hs => by simp at hs⟩
        (h.ledger.free (Seats.free_confirmSeat h.ledger.sane hnew)) (h.swept.confirmSeat (by simpa using hdeleting))
        (fun b row hrow => ?_) (.idle hnow rfl)
      · obtain ⟨row, hrow, -⟩ := (h.ready y (List.mem_of_getElem? hj)).found b hy
        exact AList.lookup_insert_ne (hother hrow)
      · have hrow : (w.boxes.insert accountId {}).lookup b = some row := hrow
        rw [Table.lookup_insert'] at hrow
        split at hrow
        next heq =>
          cases hrow
          subst heq
          exact ⟨List.mem_cons_self, fun hclaim => absurd hclaim (by simp), iff_of_true (seated_confirmSeat h.ledger.sane hok) rfl⟩
        next hne =>
          exact (h.boxes b row hrow).congr (List.mem_cons_of_mem _) (seated_confirmSeat_ne h.ledger.sane (Ne.symm hne))
    next =>
      cases hs
      exact h.idle hi rfl hnow rfl

theorem Inv.giveBack {id : Nat} {outcome : Outcome} {ok : Bool} (h : Inv w) (hi : w.actions[i]? = some x)
    (hs : giveBackStep w i x id outcome ok = some w') : Inv w' := by
  have hnow := h.now hi
  cases ok with
  | true =>
    simp only [giveBackStep] at hs
    split at hs
    · cases hs
    cases hs
    exact h.acts (u := { x with phase := .over outcome }) hi ⟨rfl, rfl, le_rfl, fun _ _ _ _ _ _ => rfl, fun _ _ _ _ _ => rfl,
      fun b hb => by simp [Action.holds, Phase.inTransaction] at hb, fun hs => by simp at hs⟩
      (h.ledger.free (Seats.free_dropPendingSeat h.ledger.sane)) h.swept.dropPendingSeat
      (fun b row hrow => (h.boxes b row hrow).congr (fun hmem => hmem) (seated_dropPendingSeat h.ledger.sane)) (.idle hnow rfl)
  | false =>
    cases hs
    exact h.idle hi rfl hnow rfl

/-- What is read under the mailbox lock is what the action relies on. -/
theorem Inv.read {settings : Settings} (h : Inv w) (hi : w.actions[i]? = some x) (hphase : x.phase = .locked) :
    Inv (match afterRead w x settings with
      | .ok phase => w.set i { x with phase := phase }
      | .error error => w.refused i x error) := by
  have hnow := h.now hi
  have hheld : ∀ {phase box}, Action.holds box { x with phase := phase } = true → x.holds box = true := fun hb =>
    Action.holds_iff.mpr ⟨(Action.holds_iff.mp hb).1, by rw [hphase]; rfl⟩
  have hopen : ∀ {box purchased} {phase : Phase}, mayOpen w box purchased x.now settings = .ok phase → phase = .asking := by
    intro box purchased phase hok
    cases settings with
    | missing => cases hok
    | otherHost => cases hok
    | same =>
      unfold mayOpen at hok
      dsimp only at hok
      split at hok
      · cases hok
      · cases hok
        rfl
  split
  next phase hread =>
    have hnotSeating : phase ≠ .seating ∧ ∀ box, Action.opens { x with phase := phase } = some box →
        ∃ row, w.boxes.lookup box = some row ∧ x.finds row = true := by
      unfold afterRead at hread
      split at hread
      next hkind =>
        cases hread
        exact ⟨by simp, fun box hb => by simp [Action.opens, hkind] at hb⟩
      next => cases hread
      next hkind _ =>
        split at hread
        · cases hread
        cases hread
        exact ⟨by simp, fun box hb => by simp [Action.opens, hkind] at hb⟩
      next hkind _ =>
        cases hread
        exact ⟨by simp, fun box hb => by simp [Action.opens, hkind] at hb⟩
      next hkind _ =>
        split at hread
        · cases hread
          exact ⟨by simp, fun box hb => by simp [Action.opens, hkind] at hb⟩
        · cases hopen hread
          exact ⟨by simp, fun box hb => by simp [Action.opens, hkind] at hb⟩
      next => cases hread
      next hkind _ =>
        split at hread
        · cases hread
        split at hread
        · cases hread
        cases hread
        exact ⟨by simp, fun box hb => by simp [Action.opens, hkind] at hb⟩
      next => cases hread
      next box email purchased row hkind hrow =>
        split at hread
        · cases hread
        next hdeactivated =>
          split at hread
          · cases hread
          next hdate =>
            cases hopen hread
            refine ⟨by simp, fun b hb => ?_⟩
            simp only [Action.opens, hkind, Option.some.injEq] at hb
            subst hb
            rw [hkind] at hrow
            have hdeactivated : row.deactivatedAt.isSome = true := Option.isSome_iff_ne_none.mpr (by simpa using hdeactivated)
            exact ⟨row, hrow, by simpa [Action.finds, hkind, hdeactivated] using hdate⟩
    exact h.set hi rfl ⟨hnow, fun hs => absurd hs hnotSeating.1, hnotSeating.2⟩ (fun box hb => .inl (hheld hb))
      (fun hs => absurd hs hnotSeating.1)
  next => exact h.idle hi rfl hnow rfl

theorem Inv.action {l : Label} (h : Inv w) (hi : w.actions[i]? = some x) (hs : actionStep w i x l = some w') : Inv w' := by
  have hnow := h.now hi
  unfold actionStep at hs
  split at hs
  next =>
    cases hs
    exact h.idle hi rfl hnow rfl
  next now hphase =>
    split at hs
    next hle =>
      split at hs
      next hbox =>
        cases hs
        -- a creation takes no mailbox lock
        refine h.set hi rfl ⟨hle, fun hs => by simp at hs, fun b hb => ?_⟩ (fun b hb => ?_) (fun hs => by simp at hs)
        · have := (Action.holds_iff.mp (Action.holds_of_opens hb)).1
          simp [hbox] at this
        · simp [Action.holds, hbox] at hb
      next box hbox =>
        split at hs
        · cases hs
        next hfree =>
          cases hs
          refine h.set hi rfl ⟨hle, fun hs => by simp at hs, fun b hb => ?_⟩ (fun b hb => .inr fun y hy => ?_) (fun hs => by simp at hs)
          · cases hkind : x.kind <;> simp [Action.opens, hkind] at hb
          · obtain rfl : box = b := by
              have := (Action.holds_iff.mp hb).1
              exact Option.some.inj (hbox.symm.trans this)
            simpa using List.any_eq_false.mp (by simpa using hfree) y hy
    · cases hs
  next hphase =>
    cases hs
    exact h.read hi hphase
  next hphase =>
    cases hs
    have hready := h.ready x (List.mem_of_getElem? hi)
    have hsame : ∀ {b}, Action.opens { x with phase := .changing } = some b → x.opens = some b := by
      intro b hb
      cases hkind : x.kind <;> simp [Action.opens, hkind, hphase] at hb ⊢
      exact hb
    refine h.set hi rfl ⟨hnow, fun hs => by simp at hs, fun b hb => hready.found b (hsame hb)⟩ (fun b hb => .inl ?_)
      (fun hs => by simp at hs)
    exact Action.holds_iff.mpr ⟨(Action.holds_iff.mp hb).1, by rw [hphase]; rfl⟩
  next =>
    cases hs
    exact h.idle hi rfl hnow rfl
  next hphase => exact h.change hi hphase hs
  next hphase => exact h.lockSeats hi hphase hs
  next hphase => exact h.seat hi hphase hs
  next => exact h.fail hi hs
  next =>
    cases hs
    exact h.idle hi rfl hnow rfl
  next =>
    cases hs
    exact h.idle hi rfl hnow rfl
  next =>
    obtain ⟨id, -, hs⟩ := Option.bind_eq_some_iff.mp hs
    exact h.insert hi hs
  next =>
    obtain ⟨id, -, hs⟩ := Option.bind_eq_some_iff.mp hs
    exact h.giveBack hi hs
  next =>
    cases hs
    exact h.idle hi rfl hnow rfl
  next =>
    split at hs
    · cases hs
      exact h.idle hi rfl hnow rfl
    · cases hs
  next => cases hs

end Steps

/-! ## The job, and time -/

section Job

variable {w w' : World} {box : Nat}

/-- What the job does to a row: never to one that no deletion is asked for, and never to what makes it work. -/
structure JobRow (row row' : Mailbox) : Prop where
  date : row'.deleteAfter = row.deleteAfter
  deactivated : row'.deactivatedAt = row.deactivatedAt
  claimed : row'.startedAt.isSome → row.startedAt.isSome ∨ row.deleteAfter.isSome

theorem jobRow_claim {now : Nat} {row row' : Mailbox} (h : MailboxDeletion.claim now row = some row') : JobRow row row' := by
  unfold MailboxDeletion.claim at h
  split at h
  next hclaim =>
    cases h
    obtain ⟨date, hdate, -⟩ := (Option.any_eq_true _ _).mp (Bool.and_eq_true_iff.mp hclaim).1
    exact ⟨rfl, rfl, fun _ => .inr (by simp [hdate])⟩
  next => cases h

theorem jobRow_recordFailure {now attempts : Nat} {startedAt : Option Nat} {code : MailboxDeletion.Code} {row : Mailbox} :
    JobRow row (MailboxDeletion.recordFailure now startedAt attempts code row) := by
  unfold MailboxDeletion.recordFailure
  split
  · exact ⟨rfl, rfl, fun hclaim => by cases hclaim⟩
  · exact ⟨rfl, rfl, .inl⟩

/-- An action that opens a mailbox it has not locked the row of finds no deletion asked for. -/
theorem Inv.opens_free {x : Action} (h : Inv w) (hx : x ∈ w.actions) (hopens : x.opens = some box) (hfree : w.rowLocked box = false) :
    ∃ row, w.boxes.lookup box = some row ∧ x.finds row = true ∧ row.deleteAfter = none ∧ ∃ email purchased,
      x.kind = .activate box email purchased := by
  obtain ⟨row, hrow, hfinds⟩ := (h.ready x hx).found box hopens
  have hkind := (Action.holds_iff.mp (Action.holds_of_opens hopens)).1
  cases hk : x.kind with
  | activate b email purchased =>
    rw [hk] at hkind
    cases hkind
    have hfinds' := hfinds
    simp only [Action.finds, hk, Bool.and_eq_true, Option.isNone_iff_eq_none] at hfinds'
    exact ⟨row, hrow, hfinds, hfinds'.2, email, purchased, rfl⟩
  | cancel b email purchased =>
    rw [hk] at hkind
    cases hkind
    have hphase : x.phase = .seating := by
      unfold Action.opens at hopens
      split at hopens <;> simp_all
    have := List.any_eq_false.mp hfree x hx
    simp [hphase, hk] at this
  | create email purchased => simp [Action.opens, hk] at hopens
  | request b delay holdDays => simp [Action.opens, hk] at hopens
  | deactivate b holdDays => simp [Action.opens, hk] at hopens

/-- A step of the job changes rows that no action relies on. -/
theorem Inv.jobs (h : Inv w) (hactions : w'.actions = w.actions) (hledger : w'.ledger = w.ledger)
    (hboxes : ∀ b row, w'.boxes.lookup b = some row → Rightful w' b row)
    (hfound : ∀ x ∈ w.actions, ∀ b, x.opens = some b → ∃ row, w'.boxes.lookup b = some row ∧ x.finds row = true) : Inv w' where
  ledger := hledger ▸ h.ledger
  swept := hledger ▸ h.swept
  boxes := hboxes
  ready x hx := by
    rw [hactions] at hx
    have hready := h.ready x hx
    exact ⟨hledger ▸ hready.now, hledger ▸ hready.holder, hfound x hx⟩
  apart := hactions ▸ h.apart
  alone := hactions ▸ h.alone

theorem Inv.jobStep {f : Mailbox → Option Mailbox} (h : Inv w) (hf : ∀ row row', f row = some row' → JobRow row row')
    (hs : jobStep w box f = some w') : Inv w' := by
  unfold MailboxActions.jobStep at hs
  split at hs
  · cases hs
  next hfree =>
    obtain ⟨row, hrow, hs⟩ := Option.bind_eq_some_iff.mp hs
    obtain ⟨row', hrow', rfl⟩ := Option.map_eq_some_iff.mp hs
    have hjob := hf row row' hrow'
    have hbox : ∀ b r, (w.boxes.modify box fun _ => row').lookup b = some r → (b ≠ box ∧ w.boxes.lookup b = some r) ∨ (b = box ∧ r = row') := by
      intro b r hr
      rw [Table.lookup_modify] at hr
      split at hr
      next heq =>
        rw [hrow] at hr
        cases hr
        exact .inr ⟨heq, rfl⟩
      next hne => exact .inl ⟨hne, hr⟩
    refine h.jobs rfl rfl (fun b r hr => ?_) (fun x hx b hopens => ?_)
    · rcases hbox b r hr with ⟨-, hold⟩ | ⟨rfl, rfl⟩
      · exact (h.boxes b r hold).congr id Iff.rfl
      · have hright := h.boxes b row hrow
        refine ⟨hright.known, fun hclaim => ?_, hright.seated.trans ?_⟩
        · rw [hjob.date]
          exact (hjob.claimed hclaim).elim hright.claimed id
        · rw [isWorking, isWorking, hjob.date, hjob.deactivated]
    · by_cases hne : b = box
      · subst hne
        obtain ⟨row₀, hrow₀, hfinds, -, email, purchased, hkind⟩ := h.opens_free hx hopens (by simpa using hfree)
        cases hrow.symm.trans hrow₀
        refine ⟨row', ?_, ?_⟩
        · rw [Table.lookup_modify_self, hrow]
          rfl
        · simp only [Action.finds, hkind] at hfinds ⊢
          rw [hjob.date, hjob.deactivated]
          exact hfinds
      · obtain ⟨r, hr, hfinds⟩ := (h.ready x hx).found b hopens
        exact ⟨r, (Table.lookup_modify_ne hne).trans hr, hfinds⟩

theorem Inv.jobRemove {startedAt : Nat} (h : Inv w) (hfree : w.rowLocked box = false)
    (hrow : (w.boxes.lookup box).any (·.startedAt == some startedAt) = true) : Inv { w with boxes := w.boxes.erase box } := by
  obtain ⟨row, hrow, hclaim⟩ := (Option.any_eq_true _ _).mp hrow
  refine h.jobs rfl rfl (fun b r hr => ?_) (fun x hx b hopens => ?_)
  · have hr : (w.boxes.erase box).lookup b = some r := hr
    rw [Table.lookup_erase'] at hr
    split at hr
    · cases hr
    · exact (h.boxes b r hr).congr id Iff.rfl
  · by_cases hne : b = box
    · subst hne
      obtain ⟨row₀, hrow₀, -, hdate, -⟩ := h.opens_free hx hopens hfree
      cases hrow.symm.trans hrow₀
      have hclaim : row.startedAt = some startedAt := by simpa using hclaim
      have := (h.boxes b row hrow).claimed (by simp [hclaim])
      simp [hdate] at this
    · obtain ⟨r, hr, hfinds⟩ := (h.ready x hx).found b hopens
      exact ⟨r, (AList.lookup_erase_ne hne).trans hr, hfinds⟩

theorem Inv.tick {time : Nat} (h : Inv w) (hle : w.ledger.clock ≤ time) : Inv { w with ledger := { w.ledger with clock := time } } where
  ledger := h.ledger.free (Seats.free_tick h.ledger.sane hle)
  swept := h.swept.free rfl hle fun _ _ r _ _ hr => ⟨r, hr, fun _ => rfl⟩
  boxes b row hrow := (h.boxes b row hrow).congr id Iff.rfl
  ready x hx := (h.ready x hx).congr hle (fun _ => rfl) fun _ _ => rfl
  apart := h.apart
  alone := h.alone

theorem Inv.start {kind : Kind} (h : Inv w) : Inv { w with actions := w.actions ++ [{ kind := kind }] } := by
  have hidle : ∀ {j : Nat} {y : Action}, (w.actions ++ [{ kind := kind }])[j]? = some y → y.phase ≠ .checking →
      w.actions[j]? = some y := by
    intro j y hj hphase
    rcases Agents.getElem?_append_some.mp hj with hj | ⟨-, rfl⟩
    · exact hj
    · exact absurd rfl hphase
  have hheld : ∀ {y : Action} {b : Nat}, y.holds b = true → y.phase ≠ .checking := fun hb hphase => by
    simp [Action.holds, hphase, Phase.inTransaction] at hb
  refine ⟨h.ledger, h.swept, fun b row hrow => (h.boxes b row hrow).congr id Iff.rfl, fun x hx => ?_,
    fun j k y z b hj hk hy hz => h.apart j k y z b (hidle hj (hheld hy)) (hidle hk (hheld hz)) hy hz,
    fun j k y z hj hk hy hz => h.alone j k y z (hidle hj (by simp [hy])) (hidle hk (by simp [hz])) hy hz⟩
  rcases List.mem_append.mp hx with hx | hx
  · exact (h.ready x hx).congr le_rfl (fun _ => rfl) fun _ _ => rfl
  · cases List.mem_singleton.mp hx
    exact .idle (Nat.zero_le _) rfl

theorem Inv.move {l : Label} (h : Inv w) (hs : MailboxActions.move w l = some w') : Inv w' := by
  have hact : ∀ {i : Nat}, (w.actions[i]?.bind fun x => actionStep w i x l) = some w' → Inv w' := by
    intro i hs
    obtain ⟨x, hi, hs⟩ := Option.bind_eq_some_iff.mp hs
    exact h.action hi hs
  cases l with
  | tick time =>
    simp only [MailboxActions.move] at hs
    split at hs
    next hle =>
      cases hs
      exact h.tick hle
    next => cases hs
  | start kind =>
    cases hs
    exact h.start
  | jobClaim box => exact h.jobStep (fun _ _ => jobRow_claim) hs
  | jobFail box startedAt attempts code =>
    refine h.jobStep (fun row row' heq => ?_) hs
    cases heq
    exact jobRow_recordFailure
  | jobRemove box startedAt =>
    simp only [MailboxActions.move] at hs
    split at hs
    next hrow =>
      cases hs
      rw [Bool.and_eq_true, Bool.not_eq_true'] at hrow
      exact h.jobRemove hrow.1 hrow.2
    next => cases hs
  | jobKeep box =>
    refine h.jobStep (fun row row' heq => ?_) hs
    cases heq
    exact ⟨rfl, rfl, .inl⟩
  | refuse i error | lock i now | read i settings | ask i ok | change i | lockSeats i | seat i statement | fail i | provision i ok
  | insertRow i accountId | giveBack i ok | answer i ok => exact hact hs

end Job

end MailExpert.MailboxActions
