import MailExpert.MailNode.SeatLedger

/-!
# The seats taken and the seats purchased

`takeFree` sweeps the reservations that expired before its `NOW()` and counts those that expire after
it. One that expires at that very moment is neither swept nor counted, and it can still be confirmed: the
seat then comes on top of the purchased number (`Ledger.expiring`). In every other run the seats taken stay
within it.
-/

namespace MailExpert.Seats

/-- What a statement of the holder of the lock finds and does. -/
inductive TxStep (w : Ledger) (tx : Tx) : Label → Ledger → Prop
  | own {id a : Nat} {r : Row} {email : String} {purchased : Option Int} : tx.op = .returnSeat a email purchased →
      w.rows.lookup id = some r → ownHeld w.rows a tx.now id r = true →
      TxStep w tx (.own id) { w with tx := some { tx with phase := .own id } }
  | noOwn {a : Nat} {email : String} {purchased : Option Int} : tx.op = .returnSeat a email purchased →
      TxStep w tx .noOwn { w with tx := some { tx with phase := .taking } }
  | reclaim {id : Nat} : tx.phase = .own id → TxStep w tx .reclaim (w.commit (w.rows.modify id fun r =>
      { r with released_at := none, release_reason := none, free_from := none }))
  | redate {days : Nat} : tx.op = .setHoldDays days →
      TxStep w tx .redate { w.commit (redate w.rows days) with holdDays := days }
  | unknown : TxStep w tx .unknown (w.commit w.rows)
  | sweep : tx.op.purchased.isSome = true → TxStep w tx .sweep { w with tx := some { tx with
      phase := .swept, gone := (w.rows.select fun _ r => r.expired tx.now).map (·.1) } }
  | full : TxStep w tx .count (w.commit (w.seen tx))
  | count {purchased : Int} : tx.phase = .swept → tx.op.purchased = some purchased →
      noFreeSeats (w.seen tx) purchased tx.now = false →
      TxStep w tx .count { w with tx := some { tx with phase := .counted } }
  | number {seat : Nat} : tx.phase = .counted → freeSeatNumber (w.seen tx) tx.now = some seat →
      TxStep w tx .number { w with tx := some { tx with phase := .numbered seat } }
  | insert {seat : Nat} {row : Row} : tx.phase = .numbered seat → tx.op.row seat tx.now = some row →
      TxStep w tx .insert { w.commit ((w.seen tx).insert w.nextId row) with nextId := w.nextId + 1 }
  | abort : TxStep w tx .abort (w.commit w.rows)

variable {rows rows' : Rows} {id id' now now' seat a : Nat} {r r' : Row} {gone : List Nat}
  {w w' : Ledger} {tx : Tx} {l : Label}

theorem stepTx_cases (h : w.stepTx tx l = some w') : TxStep w tx l w' := by
  cases l with
  | own id =>
    unfold Ledger.stepTx at h
    dsimp only at h
    split at h
    next hop hph =>
      split at h
      next hown =>
        obtain ⟨r, hr, hown⟩ := (Option.any_eq_true _ _).mp hown
        cases h
        exact .own hop hr hown
      · cases h
    · cases h
  | noOwn =>
    unfold Ledger.stepTx at h
    dsimp only at h
    split at h
    next hop hph =>
      split at h
      · cases h
      · cases h
        exact .noOwn hop
    · cases h
  | reclaim =>
    unfold Ledger.stepTx at h
    dsimp only at h
    split at h
    next hph =>
      cases h
      exact .reclaim hph
    · cases h
  | redate =>
    unfold Ledger.stepTx at h
    dsimp only at h
    split at h
    next hop =>
      cases h
      exact .redate hop
    · cases h
  | unknown =>
    unfold Ledger.stepTx at h
    dsimp only at h
    split at h
    · cases h
      exact .unknown
    · cases h
  | sweep =>
    unfold Ledger.stepTx at h
    dsimp only at h
    split at h
    next hp =>
      cases h
      exact .sweep hp.2
    · cases h
  | count =>
    unfold Ledger.stepTx at h
    dsimp only at h
    split at h
    next hph hp =>
      split at h
      · cases h
        exact .full
      next hfull =>
        cases h
        exact .count hph hp (by simpa using hfull)
    · cases h
  | number =>
    unfold Ledger.stepTx at h
    dsimp only at h
    split at h
    next hph hseat =>
      cases h
      exact .number hph hseat
    · cases h
  | insert =>
    unfold Ledger.stepTx at h
    dsimp only at h
    split at h
    next hph =>
      obtain ⟨row, hrow, rfl⟩ := Option.map_eq_some_iff.mp h
      exact .insert hph hrow
    · cases h
  | abort =>
    cases h
    exact .abort
  | tick => cases h
  | lock => cases h
  | confirmSeat => cases h
  | dropPendingSeat => cases h
  | releaseSeat => cases h

/-- A step is the holder's, the next holder's first, or needs no lock. -/
theorem step_cases (hs : Sane w.rows w.accounts) (h : w.step l = some w') :
    (∃ tx, w.tx = some tx ∧ TxStep w tx l w') ∨
    (∃ op now, l = .lock op now ∧ now ≤ w.clock ∧ op.allowed w = true ∧
      w' = { w with tx := some { op := op, now := now, phase := op.start, gone := [] } }) ∨
    Free w w' := by
  have hheld : ∀ {l}, (w.tx.bind fun tx => w.stepTx tx l) = some w' →
      ∃ tx, w.tx = some tx ∧ TxStep w tx l w' := by
    intro l h
    obtain ⟨tx, htx, h⟩ := Option.bind_eq_some_iff.mp h
    exact ⟨tx, htx, stepTx_cases h⟩
  cases l with
  | tick time =>
    apply Or.inr
    apply Or.inr
    rw [Ledger.step] at h
    split at h
    next hle =>
      cases h
      exact free_tick hs hle
    · cases h
  | lock op now =>
    refine .inr (.inl ⟨op, now, rfl, ?_⟩)
    rw [Ledger.step] at h
    split at h
    next hl =>
      cases h
      exact ⟨hl.2.1, hl.2.2, rfl⟩
    · cases h
  | confirmSeat assignmentId accountId =>
    apply Or.inr
    apply Or.inr
    unfold Ledger.step at h
    dsimp only at h
    split at h
    · cases h
    next hnew =>
    split at h
    · cases h
      exact free_confirmSeat hs fun hmem => hnew (.inr hmem)
    · cases h
  | dropPendingSeat assignmentId =>
    apply Or.inr
    apply Or.inr
    rw [Ledger.step] at h
    split at h
    · cases h
    · cases h
      exact free_dropPendingSeat hs
  | releaseSeat accountId reason holdDays now =>
    apply Or.inr
    apply Or.inr
    rw [Ledger.step] at h
    split at h
    · cases h
      exact free_releaseSeat hs
    · cases h
  | own => exact .inl (hheld h)
  | noOwn => exact .inl (hheld h)
  | reclaim => exact .inl (hheld h)
  | redate => exact .inl (hheld h)
  | unknown => exact .inl (hheld h)
  | sweep => exact .inl (hheld h)
  | count => exact .inl (hheld h)
  | number => exact .inl (hheld h)
  | insert => exact .inl (hheld h)
  | abort => exact .inl (hheld h)

/-! ## The invariant -/

/-- The expired reservations are deleted. -/
def Phase.afterSweep : Phase → Bool
  | .swept | .counted | .numbered _ => true
  | _ => false

/-- The holder of the lock. -/
structure TxOk (w : Ledger) (tx : Tx) : Prop where
  now : tx.now ≤ w.clock
  alone {a : Nat} {email : String} {purchased : Option Int} :
    tx.op = .returnSeat a email purchased → a ∈ w.accounts ∧ Alone w.rows a
  own {id : Nat} : tx.phase = .own id → ∃ a email purchased r, tx.op = .returnSeat a email purchased ∧
    w.rows.lookup id = some r ∧ isLatest w.rows id r = true ∧ r.account_id = some a ∧ r.live = false
  purchased : tx.phase.afterSweep = true → tx.op.purchased.isSome = true
  swept {id expiry : Nat} {r : Row} : tx.phase = .swept → w.rows.lookup id = some r →
    r.pending_until = some expiry → expiry < tx.now → id ∈ tx.gone
  numbered {seat : Nat} : tx.phase = .numbered seat → seat ∉ taken (w.seen tx) tx.now

structure Inv (w : Ledger) : Prop where
  ids {id : Nat} {r : Row} : w.rows.lookup id = some r → id < w.nextId
  sane : Sane w.rows w.accounts
  tx {tx : Tx} : w.tx = some tx → TxOk w tx

theorem TxOk.free (h : TxOk w tx) (hs : Sane w.rows w.accounts) (hf : Free w w') : TxOk w' tx where
  now := h.now.trans hf.clock
  alone {a email purchased} hop := by
    obtain ⟨ha, halone⟩ := h.alone hop
    refine ⟨hf.accounts ha, fun id r hr => ?_⟩
    by_contra hl
    have hl : r.liveOf a = true := by simpa using hl
    rw [halone id r (hf.mailbox ha hr hl)] at hl
    cases hl
  own hph := by
    obtain ⟨a, email, purchased, r, hop, hr, hl, ha, hdead⟩ := h.own hph
    exact ⟨a, email, purchased, r, hop, hf.rows.kept hr hdead, hf.rows.isLatest hl rfl, ha, hdead⟩
  purchased := h.purchased
  swept {id expiry r} hph hr hp hlt := by
    have hpend : r.pending_until ≠ none := by simp [hp]
    exact h.swept hph (hf.pending hr hpend) hp hlt
  numbered hph hseat := h.numbered hph (hs.latest.without.taken_subset hf.rows.without hseat)

theorem Inv.free (h : Inv w) (hf : Free w w') : Inv w' where
  ids hr := by
    obtain ⟨r, hr, -⟩ := hf.rows.back hr
    rw [hf.nextId]
    exact h.ids hr
  sane := hf.sane
  tx htx := (h.tx (hf.tx ▸ htx)).free h.sane hf

theorem inv_commit (hids : ∀ {id r}, rows.lookup id = some r → id < w.nextId)
    (hs : Sane rows w.accounts) : Inv (w.commit rows) where
  ids hr := hids hr
  sane := hs
  tx htx := by cases htx

theorem Inv.holder (h : Inv w) {tx' : Tx} (htx : TxOk w tx') : Inv { w with tx := some tx' } where
  ids := h.ids
  sane := h.sane
  tx heq := by
    cases heq
    exact ⟨htx.now, htx.alone, htx.own, htx.purchased, htx.swept, htx.numbered⟩

theorem Op.alone {op : Op} (hop : op.allowed w = true) {email : String}
    {purchased : Option Int} (heq : op = .returnSeat a email purchased) :
    a ∈ w.accounts ∧ Alone w.rows a := by
  subst heq
  simp only [Op.allowed, Bool.and_eq_true, List.contains_iff_mem, Bool.not_eq_true',
    List.any_eq_false] at hop
  refine ⟨hop.1, fun id r hr => ?_⟩
  simpa using hop.2 ⟨id, r⟩ (Table.mem_entries.mpr hr)

theorem Inv.txStep (h : Inv w) (htx : w.tx = some tx) (hstep : TxStep w tx l w') : Inv w' := by
  have hok := h.tx htx
  have hseen : ∀ {id r}, (w.seen tx).lookup id = some r → w.rows.lookup id = some r :=
    fun hr => (lookup_of_without hr).2
  cases hstep with
  | own hop hr hown =>
    refine h.holder { hok with own := ?_, purchased := ?_, swept := ?_, numbered := ?_ }
    · intro id' hph
      cases hph
      simp only [ownHeld, Bool.and_eq_true, beq_iff_eq, Row.held] at hown
      exact ⟨_, _, _, _, hop, hr, hown.1.1, hown.1.2, by simpa [Row.live, Option.ne_none_iff_isSome] using hown.2.1⟩
    · intro hph
      cases hph
    · intro _ _ _ hph
      cases hph
    · intro _ hph
      cases hph
  | noOwn hop =>
    refine h.holder { hok with own := ?_, purchased := ?_, swept := ?_, numbered := ?_ }
    · intro _ hph
      cases hph
    · intro hph
      cases hph
    · intro _ _ _ hph
      cases hph
    · intro _ hph
      cases hph
  | reclaim hph =>
    obtain ⟨a, email, purchased, r, hop, hr, hl, ha, -⟩ := hok.own hph
    refine inv_commit ?_ (h.sane.reclaim hr hl ha (hok.alone hop).2)
    intro id' r' hr'
    rw [Table.lookup_modify] at hr'
    split at hr'
    next heq => exact heq ▸ h.ids hr
    · exact h.ids hr'
  | @redate days hop =>
    have hcommit : Inv (w.commit (redate w.rows days)) := by
      refine inv_commit ?_ h.sane.redate
      intro id r hr
      rw [Seats.redate, Table.lookup_update, Option.map_eq_some_iff] at hr
      obtain ⟨r, hr, -⟩ := hr
      exact h.ids hr
    refine ⟨hcommit.ids, hcommit.sane, fun htx' => ?_⟩
    cases htx'
  | unknown => exact inv_commit h.ids h.sane
  | sweep hp =>
    refine h.holder { hok with own := ?_, purchased := ?_, swept := ?_, numbered := ?_ }
    · intro _ hph
      cases hph
    · exact fun _ => hp
    · intro id expiry r _ hr hexp hlt
      refine List.mem_map.mpr ⟨(id, r), Table.mem_select.mpr ⟨hr, ?_⟩, rfl⟩
      simpa [Row.expired, hexp] using hlt
    · intro _ hph
      cases hph
  | full => exact inv_commit (fun hr => h.ids (hseen hr)) h.sane.without
  | count hph hp hfree =>
    refine h.holder { hok with own := ?_, purchased := ?_, swept := ?_, numbered := ?_ }
    · intro _ hph
      cases hph
    · exact fun _ => hok.purchased (by rw [hph]; rfl)
    · intro _ _ _ hph
      cases hph
    · intro _ hph
      cases hph
  | number hph hseat =>
    refine h.holder { hok with own := ?_, purchased := ?_, swept := ?_, numbered := ?_ }
    · intro _ hph
      cases hph
    · exact fun _ => hok.purchased (by rw [hph]; rfl)
    · intro _ _ _ hph
      cases hph
    · intro _ hph
      cases hph
      exact freeSeatNumber_free hseat
  | insert hph hrow =>
    have hids : ∀ {id r}, (w.seen tx).lookup id = some r → id < w.nextId := fun hr => h.ids (hseen hr)
    refine ⟨?_, ?_, ?_⟩
    · intro id r hr
      have hr : ((w.seen tx).insert w.nextId _).lookup id = some r := hr
      rw [Table.lookup_insert'] at hr
      split at hr
      next heq => exact heq ▸ Nat.lt_succ_self _
      · exact Nat.lt_succ_of_lt (hids hr)
    · refine h.sane.without.insert hids (hok.numbered hph) hrow ?_
      intro a email purchased hop
      obtain ⟨ha, halone⟩ := hok.alone hop
      exact ⟨ha, fun id r hr => halone id r (hseen hr)⟩
    · intro tx' htx'
      cases htx'
  | abort => exact inv_commit h.ids h.sane

theorem inv : system.Invariant TransitionSystem.anyStep Inv where
  init {w} hw := by
    refine ⟨hw.ids, ⟨?_, ?_, hw.accounts, ?_⟩, ?_⟩
    · intro id r hr _
      exact isLatest_iff.mpr fun hr' hseat => (hw.seats hr' hr hseat).le
    · intro id id' a r r' hr hr' hl hl'
      exact hw.mailboxes hr hr' ((Row.liveOf_iff.mp hl).1.trans (Row.liveOf_iff.mp hl').1.symm)
    · intro id r hr hp
      exact absurd (hw.pending hr) hp
    · intro tx htx
      rw [hw.free] at htx
      cases htx
  step {w l w'} h _ hstep := by
    obtain ⟨tx, htx, hstep⟩ | ⟨op, now, -, hnow, hop, rfl⟩ | hf := step_cases h.sane hstep
    · exact h.txStep htx hstep
    · refine h.holder ⟨hnow, fun heq => Op.alone hop heq, ?_, ?_, ?_, ?_⟩
      · intro id hph
        cases op <;> cases hph
      · intro hph
        cases op <;> cases hph
      · intro _ _ _ hph
        cases op <;> cases hph
      · intro _ hph
        cases op <;> cases hph
    · exact h.free hf

/-- A reservation expires at the very `NOW()` of the transaction that holds the lock. -/
def Ledger.expiring (w : Ledger) : Bool :=
  w.tx.any fun tx => w.rows.entries.any fun e => e.2.pending_until == some tx.now

/-- No transaction counts the seats while a reservation expires at its `NOW()`. -/
def Timely (w : Ledger) (l : Label) : Prop := l = .count → w.expiring = false

instance (w : Ledger) (l : Label) : Decidable (Timely w l) :=
  inferInstanceAs (Decidable (l = .count → w.expiring = false))

/-- Once a transaction has counted, there is a seat left for it. -/
def Supplied (w : Ledger) : Prop :=
  ∀ tx purchased, w.tx = some tx → tx.op.purchased = some purchased →
    (tx.phase = .counted ∨ ∃ seat, tx.phase = .numbered seat) →
    ((taken (w.seen tx) tx.now).length : Int) < purchased

theorem TxOk.seen_used (h : TxOk w tx) (htx : w.tx = some tx) (hph : tx.phase = .swept)
    (htimely : w.expiring = false) (hr : (w.seen tx).lookup id = some r) (hlive : r.live = true) :
    r.used tx.now = true := by
  obtain ⟨hgone, hr⟩ := lookup_of_without hr
  rw [Row.used, hlive, Bool.true_and]
  cases hp : r.pending_until with
  | none => rfl
  | some expiry =>
    have hne : expiry ≠ tx.now := by
      intro heq
      rw [Ledger.expiring, htx, Option.any_some, List.any_eq_false] at htimely
      exact htimely ⟨id, r⟩ (Table.mem_entries.mpr hr) (by simp [hp, heq])
    have hge : ¬expiry < tx.now := fun hlt => hgone (h.swept hph hr hp hlt)
    have hgt : tx.now < expiry := by omega
    simpa using hgt

theorem Supplied.txStep (h : Supplied w) (hi : Inv w) (htx : w.tx = some tx) (hg : Timely w l)
    (hstep : TxStep w tx l w') : Supplied w' := by
  have hout : ∀ {w₀ : Ledger}, w₀.tx = none → Supplied w₀ := by
    intro w₀ hnone tx' purchased htx'
    rw [hnone] at htx'
    cases htx'
  cases hstep with
  | own =>
    intro tx' purchased htx' _ hph
    cases htx'
    obtain hph | ⟨_, hph⟩ := hph <;> cases hph
  | noOwn =>
    intro tx' purchased htx' _ hph
    cases htx'
    obtain hph | ⟨_, hph⟩ := hph <;> cases hph
  | sweep =>
    intro tx' purchased htx' _ hph
    cases htx'
    obtain hph | ⟨_, hph⟩ := hph <;> cases hph
  | @count purchased hph hp hfree =>
    intro tx' purchased' htx' hp' _
    cases htx'
    cases hp.symm.trans hp'
    have hle : (taken (w.seen tx) tx.now).length ≤ _ :=
      taken_le_seatCounts fun id r => (hi.tx htx).seen_used htx hph (hg rfl)
    have hlt : (((seatCounts (w.seen tx) tx.now).1 + (seatCounts (w.seen tx) tx.now).2 : Nat) : Int) <
        purchased := by
      simp only [noFreeSeats, decide_eq_false_iff_not] at hfree
      omega
    exact lt_of_le_of_lt (Int.ofNat_le.mpr hle) hlt
  | number hph =>
    intro tx' purchased htx' hp _
    cases htx'
    exact h tx purchased htx hp (.inl hph)
  | reclaim => exact hout rfl
  | redate => exact hout rfl
  | unknown => exact hout rfl
  | full => exact hout rfl
  | insert => exact hout rfl
  | abort => exact hout rfl

theorem supplied : system.Invariant Timely fun w => Inv w ∧ Supplied w := by
  refine inv.strengthen ?_ ?_
  · intro w hw tx purchased htx
    rw [hw.free] at htx
    cases htx
  · intro w l w' hi h hg hstep
    obtain ⟨tx, htx, hstep⟩ | ⟨op, now, -, -, -, rfl⟩ | hf := step_cases hi.sane hstep
    · exact h.txStep hi htx hg hstep
    · intro tx' purchased htx' _ hph
      cases htx'
      obtain hph | ⟨_, hph⟩ := hph <;> cases op <;> cases hph
    · intro tx purchased htx hp hph
      rw [hf.tx] at htx
      have hle : (taken (w'.seen tx) tx.now).length ≤ (taken (w.seen tx) tx.now).length :=
        taken_length_le (hi.sane.latest.without.taken_subset hf.rows.without)
      exact lt_of_le_of_lt (Int.ofNat_le.mpr hle) (h tx purchased htx hp hph)

/-! ## The ledger is sound -/

structure Sound (w : Ledger) : Prop where
  /-- at most one live row a seat -/
  seat {id id' : Nat} {r r' : Row} : w.rows.lookup id = some r → w.rows.lookup id' = some r' →
    r.live = true → r'.live = true → r.seat_no = r'.seat_no → id = id'
  /-- the latest of the seat -/
  latest {id : Nat} {r : Row} : w.rows.lookup id = some r → r.live = true → isLatest w.rows id r = true
  /-- at most one live row a mailbox -/
  mailbox {id id' a : Nat} {r r' : Row} : w.rows.lookup id = some r → w.rows.lookup id' = some r' →
    r.live = true → r'.live = true → r.account_id = some a → r'.account_id = some a → id = id'
  /-- the latest row before a new one is neither live nor on hold, from the `NOW()` of the insert on -/
  fresh {l : Label} {w' : Ledger} {id : Nat} {row : Row} : w.step l = some w' →
    w.rows.lookup id = none → w'.rows.lookup id = some row →
    ∃ tx, w.tx = some tx ∧ tx.now ≤ w.clock ∧ ∀ id' r' time, tx.now ≤ time →
      (w'.rows.erase id).lookup id' = some r' → isLatest (w'.rows.erase id) id' r' = true →
      r'.seat_no = row.seat_no → r'.live = false ∧ r'.held time = false
  /-- a seat taken leaves the live and held seats within the purchased number -/
  purchased {w' : Ledger} : w.step .insert = some w' →
    ∃ tx purchased, w.tx = some tx ∧ tx.op.purchased = some purchased ∧
      ∀ time, tx.now ≤ time → ((taken w'.rows time).length : Int) ≤ purchased

theorem TxStep.old (h : TxStep w tx l w') (hl : l ≠ .insert) (hr : w'.rows.lookup id = some r) :
    ∃ r₀, w.rows.lookup id = some r₀ := by
  have hupdate : ∀ {p f}, (w.rows.update p f).lookup id = some r → ∃ r₀, w.rows.lookup id = some r₀ := by
    intro p f hr
    rw [Table.lookup_update, Option.map_eq_some_iff] at hr
    obtain ⟨r₀, hr₀, -⟩ := hr
    exact ⟨r₀, hr₀⟩
  cases h with
  | own => exact ⟨r, hr⟩
  | noOwn => exact ⟨r, hr⟩
  | reclaim => exact hupdate hr
  | redate => exact hupdate hr
  | unknown => exact ⟨r, hr⟩
  | sweep => exact ⟨r, hr⟩
  | full => exact ⟨r, (lookup_of_without hr).2⟩
  | count => exact ⟨r, hr⟩
  | number => exact ⟨r, hr⟩
  | insert => exact absurd rfl hl
  | abort => exact ⟨r, hr⟩

theorem not_taken (h : seat ∉ taken rows now) (hr : rows.lookup id = some r)
    (hl : isLatest rows id r = true) (hseat : r.seat_no = seat) : r.live = false ∧ r.held now = false := by
  have hnot : ¬(r.live = true ∨ r.held now = true) :=
    fun hlive => h (mem_taken.mpr ⟨id, r, hr, hl, hlive, hseat⟩)
  simpa using hnot

theorem Inv.fresh (h : Inv w) (hstep : w.step l = some w') (hnone : w.rows.lookup id = none)
    (hrow : w'.rows.lookup id = some r) :
    ∃ tx, w.tx = some tx ∧ tx.now ≤ w.clock ∧ ∀ id' r' time, tx.now ≤ time →
      (w'.rows.erase id).lookup id' = some r' → isLatest (w'.rows.erase id) id' r' = true →
      r'.seat_no = r.seat_no → r'.live = false ∧ r'.held time = false := by
  obtain ⟨tx, htx, hstep⟩ | ⟨op, now, -, -, -, rfl⟩ | hf := step_cases h.sane hstep
  · by_cases hl : l = .insert
    swap
    · obtain ⟨r₀, hr₀⟩ := hstep.old hl hrow
      rw [hnone] at hr₀
      cases hr₀
    subst hl
    cases hstep with
    | @insert seat row hph hop =>
    have hok := h.tx htx
    obtain ⟨rfl, rfl⟩ : id = w.nextId ∧ r = row := by
      have hnew : ((w.seen tx).insert w.nextId row).lookup id = some r := hrow
      rw [Table.lookup_insert'] at hnew
      split at hnew
      next hid => exact ⟨hid, (Option.some.inj hnew).symm⟩
      · rw [(lookup_of_without hnew).2] at hnone
        cases hnone
    have herase : ∀ {id₀ r₀}, (((w.seen tx).insert w.nextId r).erase w.nextId).lookup id₀ = some r₀ →
        (w.seen tx).lookup id₀ = some r₀ := by
      intro id₀ r₀ hr₀
      rw [Table.lookup_erase'] at hr₀
      split at hr₀
      · cases hr₀
      next hne => rwa [AList.lookup_insert_ne hne] at hr₀
    refine ⟨tx, htx, hok.now, fun id' r' time htime hr' hlatest hseat => ?_⟩
    have hlatest' : isLatest (w.seen tx) id' r' = true := by
      refine isLatest_iff.mpr fun {id₂ r₂} hr₂ hs₂ => isLatest_iff.mp hlatest ?_ hs₂
      have hne : id₂ ≠ w.nextId := (h.ids (lookup_of_without hr₂).2).ne
      exact (AList.lookup_erase_ne hne).trans ((AList.lookup_insert_ne hne).trans hr₂)
    exact not_taken (fun hmem => hok.numbered hph (taken_mono htime hmem)) (herase hr') hlatest'
      (hseat.trans (Op.row_eq hop).1)
  · rw [show w.rows.lookup id = some r from hrow] at hnone
    cases hnone
  · obtain ⟨r₀, hr₀, -⟩ := hf.rows.back hrow
    rw [hr₀] at hnone
    cases hnone

theorem Supplied.insert (hs : Supplied w) (h : Inv w) (hstep : w.step .insert = some w') :
    ∃ tx purchased, w.tx = some tx ∧ tx.op.purchased = some purchased ∧
      ∀ time, tx.now ≤ time → ((taken w'.rows time).length : Int) ≤ purchased := by
  obtain ⟨tx, htx, hstep⟩ := Option.bind_eq_some_iff.mp hstep
  cases stepTx_cases hstep with
  | @insert seat row hph hop =>
  have hok := h.tx htx
  obtain ⟨purchased, hp⟩ := Option.isSome_iff_exists.mp (hok.purchased (by rw [hph]; rfl))
  refine ⟨tx, purchased, htx, hp, fun time htime => ?_⟩
  have hids : ∀ {id r}, (w.seen tx).lookup id = some r → id < w.nextId :=
    fun hr => h.ids (lookup_of_without hr).2
  have hsub : taken ((w.seen tx).insert w.nextId row) time ⊆ row.seat_no :: taken (w.seen tx) tx.now :=
    fun x hx => taken_insert hids (taken_mono htime hx)
  have hle : (taken ((w.seen tx).insert w.nextId row) time).length ≤ (taken (w.seen tx) tx.now).length + 1 :=
    (List.subperm_of_subset taken_nodup hsub).length_le
  have hlt := hs tx purchased htx hp (.inr ⟨seat, hph⟩)
  have hle' : ((taken ((w.seen tx).insert w.nextId row) time).length : Int) ≤ purchased := by omega
  exact hle'

/-- In a run where no reservation expires at the moment of a count, the ledger is sound throughout. -/
theorem timely_sound (h : system.ReachesUnder Timely w) : Sound w := by
  obtain ⟨hi, hs⟩ := supplied.reachesUnder h
  refine ⟨?_, ?_, ?_, hi.fresh, hs.insert hi⟩
  · intro id id' r r' hr hr' hl hl' hseat
    exact isLatest_unique hr hr' (hi.sane.latest id r hr hl) (hi.sane.latest id' r' hr' hl') hseat
  · intro id r hr hl
    exact hi.sane.latest id r hr hl
  · intro id id' a r r' hr hr' hl hl' ha ha'
    exact hi.sane.mailbox hr hr' (Row.liveOf_iff.mpr ⟨ha, hl⟩) (Row.liveOf_iff.mpr ⟨ha', hl'⟩)

def emptyLedger : Ledger :=
  { rows := ∅, nextId := 1, clock := 0, holdDays := 90, accounts := [], tx := none }

theorem emptyLedger_init : system.init emptyLedger := by
  have hnone : ∀ {id r}, emptyLedger.rows.lookup id ≠ some r := fun h => by cases h
  exact ⟨rfl, fun h => absurd h hnone, fun h => absurd h hnone, fun h => absurd h hnone,
    fun h => absurd h hnone, fun h => absurd h hnone⟩

/-- The statements of a reservation, up to the insert. -/
def reserving (email : String) (now : Nat) : List Label :=
  [.lock (.reserveSeat email (some 1)) now, .sweep, .count]

theorem timely_sound_reserve : ∃ w, system.ReachesUnder Timely w ∧ Sound w ∧
    ∃ w', w.step .insert = some w' ∧ taken w'.rows 0 = [1] := by
  have htrace : (system.exec Timely emptyLedger (reserving "a@example.com" 0 ++ [.number])).any
      (fun w => (w.step .insert).any fun w' => taken w'.rows 0 = [1]) = true := by decide
  obtain ⟨w, hw, hp⟩ := TransitionSystem.reaches_of_exec emptyLedger_init htrace
  obtain ⟨w', hw', ht⟩ := (Option.any_eq_true _ _).mp hp
  exact ⟨w, hw, timely_sound hw, w', hw', of_decide_eq_true ht⟩

/-- The first reservation expires as the second one counts, and is confirmed after that. -/
theorem expiring_oversold : ¬∀ w, system.Reachable w → Sound w := by
  intro h
  have htrace : (system.exec TransitionSystem.anyStep emptyLedger
      (reserving "a@example.com" 0 ++ [.number, .insert, .tick (pendingMinutes * minute)] ++
        reserving "b@example.com" (pendingMinutes * minute) ++ [.confirmSeat 1 7, .number])).any
      (fun w => w.tx.any (fun tx => tx.now = pendingMinutes * minute && tx.op.purchased = some 1) &&
        (w.step .insert).any fun w' => taken w'.rows (pendingMinutes * minute) = [2, 1]) = true := by decide
  obtain ⟨w, hw, hp⟩ := TransitionSystem.reaches_of_exec emptyLedger_init htrace
  rw [Bool.and_eq_true, Option.any_eq_true, Option.any_eq_true] at hp
  obtain ⟨⟨tx, htx, hnow⟩, w', hw', ht⟩ := hp
  obtain ⟨tx', purchased, htx', hp', hle⟩ := (h w hw).purchased hw'
  cases htx.symm.trans htx'
  simp only [Bool.and_eq_true, decide_eq_true_eq] at hnow ht
  have hle := hle (pendingMinutes * minute) hnow.1.le
  cases hnow.2.symm.trans hp'
  rw [ht] at hle
  exact absurd hle (by decide)

end MailExpert.Seats
