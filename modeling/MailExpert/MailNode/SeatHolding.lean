import MailExpert.Lib.Agents
import MailExpert.MailNode.MailboxActions
import MailExpert.MailNode.SeatSupply

/-!
# A mailbox has a seat exactly while it works

What is to hold of the mailboxes, the ledger and the actions on them (`Inv`), and what the statements of an action do to
the seat of each mailbox.
-/

namespace MailExpert.MailboxActions

open Seats (Rows Sane Alone confirmSeat releaseSeat dropPendingSeat Row.liveOf_iff lookup_of_without)

section Ledger

variable {rows rows' : Rows} {accounts : List Nat} {id a b : Nat}

theorem alone_iff : Alone rows a ↔ ¬Seated rows a := by
  constructor
  · rintro h ⟨id, r, hr, hl⟩
    rw [h id r hr] at hl
    cases hl
  · intro h id r hr
    by_contra hl
    exact h ⟨id, r, hr, by simpa using hl⟩

/-- The ledgers have the same live rows of the mailbox. -/
theorem seated_congr (h : ∀ id r, r.liveOf a = true → (rows'.lookup id = some r ↔ rows.lookup id = some r)) :
    Seated rows' a ↔ Seated rows a := by
  constructor
  · rintro ⟨id, r, hr, hl⟩
    exact ⟨id, r, (h id r hl).mp hr, hl⟩
  · rintro ⟨id, r, hr, hl⟩
    exact ⟨id, r, (h id r hl).mpr hr, hl⟩

/-- A reservation is of no mailbox yet. -/
theorem not_pending_of_liveOf {r : Seats.Row} (hs : Sane rows accounts) (hr : rows.lookup id = some r)
    (hl : r.liveOf a = true) : r.pending = false := by
  by_contra hp
  have hnone := (hs.pending hr (Seats.Row.pending_iff.mp (by simpa using hp))).2
  rw [(Row.liveOf_iff.mp hl).1] at hnone
  cases hnone

theorem seated_confirmSeat_ne {assignmentId : Nat} (hs : Sane rows accounts) (hne : b ≠ a) :
    Seated (confirmSeat rows assignmentId b).1 a ↔ Seated rows a := by
  refine seated_congr fun id r hl => ⟨fun hr => ?_, fun hr => ?_⟩
  · obtain ⟨r₀, hr₀, rfl | ⟨-, -, rfl⟩⟩ := Seats.confirmSeat_cases hr
    · exact hr₀
    · exact absurd (Option.some.inj (Row.liveOf_iff.mp hl).1) hne
  · rw [confirmSeat, Table.lookup_update, hr]
    simp [not_pending_of_liveOf hs hr hl]

theorem seated_confirmSeat {assignmentId : Nat} (hs : Sane rows accounts) (hok : (confirmSeat rows assignmentId a).2 = true) :
    Seated (confirmSeat rows assignmentId a).1 a := by
  obtain ⟨r, hr, hp⟩ := (Option.any_eq_true _ _).mp hok
  refine ⟨assignmentId, { r with account_id := some a, pending_until := none }, ?_, ?_⟩
  · rw [confirmSeat, Table.lookup_update, hr]
    simp [hp]
  · exact Row.liveOf_iff.mpr ⟨rfl, (hs.pending hr (Seats.Row.pending_iff.mp hp)).1⟩

theorem seated_dropPendingSeat {assignmentId : Nat} (hs : Sane rows accounts) :
    Seated (dropPendingSeat rows assignmentId) a ↔ Seated rows a := by
  refine seated_congr fun id r hl => ⟨Seats.dropPendingSeat_cases, fun hr => ?_⟩
  rw [dropPendingSeat, Table.lookup_delete, hr]
  simp [not_pending_of_liveOf hs hr hl]

theorem seated_releaseSeat_ne {reason : String} {holdDays now : Nat} (hne : b ≠ a) :
    Seated (releaseSeat rows b reason holdDays now).1 a ↔ Seated rows a := by
  refine seated_congr fun id r hl => ⟨fun hr => ?_, fun hr => ?_⟩
  · obtain ⟨r₀, hr₀, ⟨rfl, -⟩ | ⟨-, rfl⟩⟩ := Seats.releaseSeat_cases hr
    · exact hr₀
    · cases (Row.liveOf_iff.mp hl).2
  · have hnot : r.liveOf b = false := by
      by_contra hb
      have hb := (Row.liveOf_iff.mp (by simpa using hb)).1
      exact hne (Option.some.inj (hb.symm.trans (Row.liveOf_iff.mp hl).1))
    rw [releaseSeat, Table.lookup_update, hr]
    simp [hnot]

theorem not_seated_releaseSeat {reason : String} {holdDays now : Nat} :
    ¬Seated (releaseSeat rows a reason holdDays now).1 a := by
  rintro ⟨id, r, hr, hl⟩
  obtain ⟨r₀, hr₀, ⟨rfl, hnot⟩ | ⟨-, rfl⟩⟩ := Seats.releaseSeat_cases hr
  · rw [hnot] at hl
    cases hl
  · cases (Row.liveOf_iff.mp hl).2

/-- What was swept are reservations. -/
theorem seated_without {gone : List Nat} (hs : Sane rows accounts)
    (hgone : ∀ id r, id ∈ gone → rows.lookup id = some r → r.pending = true) :
    Seated (Seats.without rows gone) a ↔ Seated rows a := by
  refine seated_congr fun id r hl => ⟨fun hr => (lookup_of_without hr).2, fun hr => ?_⟩
  rw [Seats.lookup_without, if_neg fun hmem => ?_, hr]
  have hp := hgone id r hmem hr
  rw [not_pending_of_liveOf hs hr hl] at hp
  cases hp

theorem seated_insert_ne {r : Seats.Row} (hnew : rows.lookup id = none) (hr : r.liveOf a = false) :
    Seated (rows.insert id r) a ↔ Seated rows a := by
  refine seated_congr fun id' r' hl => ?_
  rw [Table.lookup_insert']
  split
  next heq =>
    subst heq
    rw [hnew]
    refine ⟨fun h => ?_, fun h => by cases h⟩
    cases h
    rw [hr] at hl
    cases hl
  next => exact Iff.rfl

theorem seated_insert {r : Seats.Row} (hr : r.liveOf a = true) : Seated (rows.insert id r) a :=
  ⟨id, r, AList.lookup_insert _, hr⟩

theorem seated_reclaim {r : Seats.Row} (hr : rows.lookup id = some r) (ha : r.account_id = some b) :
    Seated (rows.modify id fun r => { r with released_at := none, release_reason := none, free_from := none }) b := by
  refine ⟨id, { r with released_at := none, release_reason := none, free_from := none }, ?_, Row.liveOf_iff.mpr ⟨ha, rfl⟩⟩
  rw [Table.lookup_modify_self, hr]
  rfl

theorem seated_reclaim_ne {r : Seats.Row} (hr : rows.lookup id = some r) (ha : r.account_id = some b) (hne : b ≠ a) :
    Seated (rows.modify id fun r => { r with released_at := none, release_reason := none, free_from := none }) a ↔
      Seated rows a := by
  refine seated_congr fun id' r' hl => ?_
  rw [Table.lookup_modify]
  split
  next heq =>
    subst heq
    rw [hr, Option.map_some]
    constructor
    · intro h
      cases h
      exact absurd (Option.some.inj (ha.symm.trans (Row.liveOf_iff.mp hl).1)) hne
    · intro h
      cases h
      exact absurd (Option.some.inj (ha.symm.trans (Row.liveOf_iff.mp hl).1)) hne
  next => exact Iff.rfl

end Ledger

/-! ## The invariant -/

/-- The mailbox the action is about to open: it holds its lock and found it closed. -/
def Action.opens (x : Action) : Option Nat :=
  match x.kind, x.phase with
  | .activate box _ _, .asking | .activate box _ _, .changing | .activate box _ _, .seating | .cancel box _ _, .seating => some box
  | _, _ => none

def Action.finds (x : Action) (row : Mailbox) : Bool :=
  match x.kind with
  | .activate _ _ _ => row.deactivatedAt.isSome && row.deleteAfter.isNone
  | .cancel _ _ _ => row.deleteAfter.isSome && row.startedAt.isNone && row.deactivatedAt.isNone
  | _ => true

structure Action.Ready (w : World) (x : Action) : Prop where
  now : x.now ≤ w.ledger.clock
  holder : x.phase = .seating → ∃ tx, w.ledger.tx = some tx ∧ x.kind.op? = some tx.op
  found : ∀ box, x.opens = some box → ∃ row, w.boxes.lookup box = some row ∧ x.finds row = true

/-- What the holder of the seats lock has swept are expired reservations. -/
def Swept (ledger : Seats.Ledger) : Prop :=
  ∀ tx id r, ledger.tx = some tx → id ∈ tx.gone → ledger.rows.lookup id = some r →
    r.pending = true ∧ r.expired ledger.clock = true

structure Inv (w : World) : Prop where
  ledger : Seats.Inv w.ledger
  swept : Swept w.ledger
  boxes : ∀ box row, w.boxes.lookup box = some row → Rightful w box row
  ready : ∀ x ∈ w.actions, x.Ready w
  apart : ∀ (i j : Nat) (x y : Action) (box : Nat), w.actions[i]? = some x → w.actions[j]? = some y →
    x.holds box = true → y.holds box = true → i = j
  alone : ∀ (i j : Nat) (x y : Action), w.actions[i]? = some x → w.actions[j]? = some y → x.phase = .seating → y.phase = .seating → i = j

theorem Action.holds_iff {x : Action} {box : Nat} :
    x.holds box = true ↔ x.kind.box? = some box ∧ x.phase.inTransaction = true := by
  simp [Action.holds]

theorem Action.holds_of_opens {x : Action} {box : Nat} (h : x.opens = some box) : x.holds box = true := by
  rw [Action.holds_iff]
  unfold Action.opens at h
  split at h
  next hkind hphase =>
    cases h
    simp [hkind, hphase, Kind.box?, Phase.inTransaction]
  next hkind hphase =>
    cases h
    simp [hkind, hphase, Kind.box?, Phase.inTransaction]
  next hkind hphase =>
    cases h
    simp [hkind, hphase, Kind.box?, Phase.inTransaction]
  next hkind hphase =>
    cases h
    simp [hkind, hphase, Kind.box?, Phase.inTransaction]
  next => cases h

/-- The actions say the same of another world where nothing they rely on changed. -/
theorem Action.Ready.congr {w w' : World} {x : Action} (h : x.Ready w) (hclock : w.ledger.clock ≤ w'.ledger.clock)
    (htx : x.phase = .seating → w'.ledger.tx = w.ledger.tx)
    (hbox : ∀ box, x.opens = some box → w'.boxes.lookup box = w.boxes.lookup box) : x.Ready w' where
  now := h.now.trans hclock
  holder hphase := by
    obtain ⟨tx, hw, hop⟩ := h.holder hphase
    exact ⟨tx, (htx hphase).trans hw, hop⟩
  found box hopens := by
    obtain ⟨row, hrow, hfinds⟩ := h.found box hopens
    exact ⟨row, (hbox box hopens).trans hrow, hfinds⟩

/-- An action outside its transaction relies on nothing. -/
theorem Action.Ready.idle {w : World} {x : Action} (hnow : x.now ≤ w.ledger.clock) (h : x.phase.inTransaction = false) :
    x.Ready w where
  now := hnow
  holder hphase := by simp [hphase, Phase.inTransaction] at h
  found box hopens := by
    have := (Action.holds_iff.mp (Action.holds_of_opens hopens)).2
    rw [h] at this
    cases this

/-- Action `i` becomes `x'`, with what it may do to the ledger and to the mailbox it holds. -/
structure Acts (w : World) (i : Nat) (x x' : Action) (w' : World) : Prop where
  actions : w'.actions = w.actions.set i x'
  kind : x'.kind = x.kind
  clock : w.ledger.clock ≤ w'.ledger.clock
  frame : ∀ (j : Nat) (y : Action) (box : Nat), j ≠ i → w.actions[j]? = some y → y.opens = some box →
    w'.boxes.lookup box = w.boxes.lookup box
  tx : ∀ (j : Nat) (y : Action), j ≠ i → w.actions[j]? = some y → y.phase = .seating → w'.ledger.tx = w.ledger.tx
  holds : ∀ box, x'.holds box = true → x.holds box = true ∨ ∀ y ∈ w.actions, y.holds box = false
  seating : x'.phase = .seating → x.phase = .seating ∨ ∀ y ∈ w.actions, y.phase ≠ .seating

theorem Inv.acts {w w' : World} {i : Nat} {x u : Action} (h : Inv w) (hi : w.actions[i]? = some x) (ha : Acts w i x u w')
    (hledger : Seats.Inv w'.ledger) (hswept : Swept w'.ledger)
    (hboxes : ∀ box row, w'.boxes.lookup box = some row → Rightful w' box row) (hready : u.Ready w') : Inv w' where
  ledger := hledger
  swept := hswept
  boxes := hboxes
  ready y hy := by
    rw [ha.actions] at hy
    obtain ⟨j, hj⟩ := List.mem_iff_getElem?.mp hy
    obtain ⟨rfl, rfl⟩ | ⟨hne, hj⟩ := (Agents.getElem?_set_some hi).mp hj
    · exact hready
    · exact (h.ready y (List.mem_of_getElem? hj)).congr ha.clock (ha.tx j y (Ne.symm hne) hj)
        (fun box hy => ha.frame j y box (Ne.symm hne) hj hy)
  apart j k y z box hj hk hy hz := by
    rw [ha.actions] at hj hk
    obtain ⟨rfl, rfl⟩ | ⟨-, hj₀⟩ := (Agents.getElem?_set_some hi).mp hj <;>
      obtain ⟨hik, rfl⟩ | ⟨-, hk₀⟩ := (Agents.getElem?_set_some hi).mp hk
    · exact hik
    · rcases ha.holds box hy with hx | hnone
      · exact h.apart i k x z box hi hk₀ hx hz
      · rw [hnone z (List.mem_of_getElem? hk₀)] at hz
        cases hz
    · rcases ha.holds box hz with hx | hnone
      · exact (h.apart j i y x box hj₀ hi hy hx).trans hik
      · rw [hnone y (List.mem_of_getElem? hj₀)] at hy
        cases hy
    · exact h.apart j k y z box hj₀ hk₀ hy hz
  alone j k y z hj hk hy hz := by
    rw [ha.actions] at hj hk
    obtain ⟨rfl, rfl⟩ | ⟨-, hj₀⟩ := (Agents.getElem?_set_some hi).mp hj <;>
      obtain ⟨hik, rfl⟩ | ⟨-, hk₀⟩ := (Agents.getElem?_set_some hi).mp hk
    · exact hik
    · rcases ha.seating hy with hx | hnone
      · exact h.alone i k x z hi hk₀ hx hz
      · exact absurd hz (hnone z (List.mem_of_getElem? hk₀))
    · rcases ha.seating hz with hx | hnone
      · exact (h.alone j i y x hj₀ hi hy hx).trans hik
      · exact absurd hy (hnone y (List.mem_of_getElem? hj₀))
    · exact h.alone j k y z hj₀ hk₀ hy hz

/-- A step of an action that leaves the mailboxes and the ledger alone. -/
theorem Inv.set {w : World} {i : Nat} {x x' : Action} (h : Inv w) (hi : w.actions[i]? = some x) (hkind : x'.kind = x.kind)
    (hready : x'.Ready w)
    (hholds : ∀ box, x'.holds box = true → x.holds box = true ∨ ∀ y ∈ w.actions, y.holds box = false)
    (hseating : x'.phase = .seating → x.phase = .seating) : Inv (w.set i x') :=
  h.acts hi ⟨rfl, hkind, le_rfl, fun _ _ _ _ _ _ => rfl, fun _ _ _ _ _ => rfl, hholds, fun hs => .inl (hseating hs)⟩
    h.ledger h.swept (fun box row hrow => ⟨(h.boxes box row hrow).known, (h.boxes box row hrow).claimed,
      (h.boxes box row hrow).seated⟩) ⟨hready.now, hready.holder, hready.found⟩

/-- A step that ends the transaction of an action, or that is outside of it. -/
theorem Inv.idle {w : World} {i : Nat} {x x' : Action} (h : Inv w) (hi : w.actions[i]? = some x) (hkind : x'.kind = x.kind)
    (hnow : x'.now ≤ w.ledger.clock) (hphase : x'.phase.inTransaction = false) : Inv (w.set i x') :=
  h.set hi hkind (.idle hnow hphase)
    (fun box hx => by
      have := (Action.holds_iff.mp hx).2
      rw [hphase] at this
      cases this)
    (fun hs => by simp [hs, Phase.inTransaction] at hphase)

/-! ## The ledger under an action -/

section Ledger

variable {w w' : Seats.Ledger}

theorem Swept.of_none (h : w.tx = none) : Swept w := by
  intro tx id r htx
  rw [h] at htx
  cases htx

theorem expired_mono {r : Seats.Row} {now now' : Nat} (hle : now ≤ now') (h : r.expired now = true) : r.expired now' = true := by
  obtain ⟨expiry, hr, hlt⟩ := (Option.any_eq_true _ _).mp h
  exact (Option.any_eq_true _ _).mpr ⟨expiry, hr, by simp at hlt ⊢; omega⟩

theorem pending_of_expired {r : Seats.Row} {now : Nat} (h : r.expired now = true) : r.pending = true := by
  obtain ⟨expiry, hr, -⟩ := (Option.any_eq_true _ _).mp h
  simp [Seats.Row.pending, hr]

/-- A step beside the holder of the seats lock, which changes no row that one has deleted. -/
theorem Swept.free (h : Swept w) (htx : w'.tx = w.tx) (hclock : w.clock ≤ w'.clock)
    (hrows : ∀ tx id r, w.tx = some tx → id ∈ tx.gone → w'.rows.lookup id = some r →
      ∃ r₀, w.rows.lookup id = some r₀ ∧ (r₀.pending = true → r = r₀)) : Swept w' := by
  intro tx id r htx' hid hr
  rw [htx] at htx'
  obtain ⟨r₀, hr₀, heq⟩ := hrows tx id r htx' hid hr
  obtain ⟨hp, hexp⟩ := h tx id r₀ htx' hid hr₀
  rw [heq hp]
  exact ⟨hp, expired_mono hclock hexp⟩

theorem Swept.releaseSeat {box holdDays now : Nat} {reason : String} (h : Swept w) (hs : Sane w.rows w.accounts) :
    Swept { w with rows := (Seats.releaseSeat w.rows box reason holdDays now).1 } := by
  refine h.free rfl le_rfl fun tx id r _ _ hr => ?_
  obtain ⟨r₀, hr₀, ⟨rfl, -⟩ | ⟨hl, -⟩⟩ := Seats.releaseSeat_cases hr
  · exact ⟨r, hr₀, fun _ => rfl⟩
  · refine ⟨r₀, hr₀, fun hp => ?_⟩
    rw [not_pending_of_liveOf hs hr₀ hl] at hp
    cases hp

theorem Swept.confirmSeat {id a : Nat} (h : Swept w) (hdeleting : w.deleting id = false) :
    Swept { w with rows := (Seats.confirmSeat w.rows id a).1, accounts := a :: w.accounts } := by
  refine h.free rfl le_rfl fun tx id' r htx hid hr => ?_
  obtain ⟨r₀, hr₀, rfl | ⟨rfl, -, -⟩⟩ := Seats.confirmSeat_cases hr
  · exact ⟨r, hr₀, fun _ => rfl⟩
  · simp [Seats.Ledger.deleting, htx, hid] at hdeleting

theorem Swept.dropPendingSeat {id : Nat} (h : Swept w) : Swept { w with rows := Seats.dropPendingSeat w.rows id } :=
  h.free rfl le_rfl fun _ _ r _ _ hr => ⟨r, Seats.dropPendingSeat_cases hr, fun _ => rfl⟩

theorem Swept.txStep {tx : Seats.Tx} {l : Seats.Label} (h : Swept w) (hi : Seats.Inv w) (htx : w.tx = some tx)
    (hstep : Seats.TxStep w tx l w') : Swept w' := by
  have hsame : ∀ {phase}, Swept { w with tx := some { tx with phase := phase } } := by
    intro phase tx' id r htx' hid hr
    cases htx'
    exact h tx id r htx hid hr
  cases hstep with
  | own => exact hsame
  | noOwn => exact hsame
  | count => exact hsame
  | number => exact hsame
  | sweep =>
    intro tx' id r htx' hid hr
    cases htx'
    obtain ⟨e, he, rfl⟩ := List.mem_map.mp hid
    obtain ⟨hr', hexp⟩ := Table.mem_select.mp he
    cases hr.symm.trans hr'
    exact ⟨pending_of_expired hexp, expired_mono (hi.tx htx).now hexp⟩
  | reclaim => exact .of_none rfl
  | redate => exact .of_none rfl
  | unknown => exact .of_none rfl
  | full => exact .of_none rfl
  | insert => exact .of_none rfl
  | abort => exact .of_none rfl

/-- The statements under the lock that take no seat leave every mailbox's seat as it is. -/
theorem seated_txStep {tx : Seats.Tx} {l : Seats.Label} {a : Nat} (h : Swept w) (hi : Seats.Inv w) (htx : w.tx = some tx)
    (hstep : Seats.TxStep w tx l w') (hreclaim : l ≠ .reclaim) (hinsert : l ≠ .insert) (hredate : l ≠ .redate) :
    Seated w'.rows a ↔ Seated w.rows a := by
  cases hstep with
  | reclaim => exact absurd rfl hreclaim
  | insert => exact absurd rfl hinsert
  | redate => exact absurd rfl hredate
  | full => exact seated_without hi.sane fun id r hid hr => (h tx id r htx hid hr).1
  | own => exact Iff.rfl
  | noOwn => exact Iff.rfl
  | count => exact Iff.rfl
  | number => exact Iff.rfl
  | sweep => exact Iff.rfl
  | unknown => exact Iff.rfl
  | abort => exact Iff.rfl

/-- What the holder takes is a seat for its mailbox, and for nobody else. -/
theorem seated_taken {tx : Seats.Tx} {l : Seats.Label} {a : Nat} {email : String} {purchased : Option Int} (h : Swept w)
    (hi : Seats.Inv w) (htx : w.tx = some tx) (hop : tx.op = .returnSeat a email purchased)
    (hstep : Seats.TxStep w tx l w') (hl : l = .reclaim ∨ l = .insert) :
    Seated w'.rows a ∧ ∀ b, a ≠ b → (Seated w'.rows b ↔ Seated w.rows b) := by
  cases hstep with
  | reclaim hphase =>
    obtain ⟨a', email', purchased', r, hop', hr, -, ha, -⟩ := (hi.tx htx).own hphase
    cases hop.symm.trans hop'
    exact ⟨seated_reclaim hr ha, fun b hne => seated_reclaim_ne hr ha hne⟩
  | insert hphase hrow =>
    rw [hop] at hrow
    cases hrow
    have hnew : (w.seen tx).lookup w.nextId = none := by
      by_contra hnone
      obtain ⟨r, hr⟩ := Option.ne_none_iff_exists'.mp hnone
      exact lt_irrefl _ (hi.ids (lookup_of_without hr).2)
    refine ⟨seated_insert (Row.liveOf_iff.mpr ⟨rfl, rfl⟩), fun b hne => (seated_insert_ne hnew ?_).trans
      (seated_without hi.sane fun id r hid hr => (h tx id r htx hid hr).1)⟩
    simp [Seats.Row.liveOf, hne]
  | _ => simp at hl

/-- A reservation is of no mailbox. -/
theorem seated_reserved {tx : Seats.Tx} {a : Nat} {email : String} {purchased : Option Int} (h : Swept w)
    (hi : Seats.Inv w) (htx : w.tx = some tx) (hop : tx.op = .reserveSeat email purchased)
    (hstep : Seats.TxStep w tx .insert w') : Seated w'.rows a ↔ Seated w.rows a := by
  cases hstep with
  | insert hphase hrow =>
    rw [hop] at hrow
    cases hrow
    have hnew : (w.seen tx).lookup w.nextId = none := by
      by_contra hnone
      obtain ⟨r, hr⟩ := Option.ne_none_iff_exists'.mp hnone
      exact lt_irrefl _ (hi.ids (lookup_of_without hr).2)
    exact (seated_insert_ne hnew rfl).trans (seated_without hi.sane fun id r hid hr => (h tx id r htx hid hr).1)

end Ledger

end MailExpert.MailboxActions
