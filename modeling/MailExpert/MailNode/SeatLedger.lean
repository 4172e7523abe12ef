import MailExpert.MailNode.Seats

/-!
# The ledger keeps its seats

A live row is the latest of its seat (`LiveLatest`), so what happens without the lock, which touches live
rows only (`LiveOnly`), can free a seat but never take one: the seats that are live or on hold only get
fewer while a transaction counts them, picks a number and inserts.
-/

namespace MailExpert.Seats

variable {rows rows' : Rows} {id id' now now' seat a : Nat} {r r' : Row} {gone : List Nat}

theorem isLatest_iff : isLatest rows id r = true ↔
    ∀ {id' : Nat} {r' : Row}, rows.lookup id' = some r' → r'.seat_no = r.seat_no → id' ≤ id := by
  rw [isLatest, List.all_eq_true]
  constructor
  · intro h id' r' hr' hseat
    have := h ⟨id', r'⟩ (Table.mem_entries.mpr hr')
    simpa [hseat] using this
  · intro h e he
    by_cases hseat : e.2.seat_no = r.seat_no
    · simpa [hseat] using h (Table.mem_entries.mp he) hseat
    · simp [hseat]

theorem isLatest_unique (hr : rows.lookup id = some r) (hr' : rows.lookup id' = some r')
    (h : isLatest rows id r = true) (h' : isLatest rows id' r' = true)
    (hseat : r.seat_no = r'.seat_no) : id = id' :=
  Nat.le_antisymm (isLatest_iff.mp h' hr hseat) (isLatest_iff.mp h hr' hseat.symm)

theorem mem_taken : seat ∈ taken rows now ↔ ∃ id r, rows.lookup id = some r ∧
    isLatest rows id r = true ∧ (r.live = true ∨ r.held now = true) ∧ r.seat_no = seat := by
  simp only [taken, latest, List.mem_map, List.mem_filter, Prod.exists, Table.mem_select,
    Bool.or_eq_true, and_assoc]

theorem taken_nodup : (taken rows now).Nodup := by
  have hlatest : (latest rows).Nodup := Table.nodup_select
  refine List.Nodup.map_on ?_ (hlatest.filter _)
  rintro ⟨id, r⟩ h ⟨id', r'⟩ h' hseat
  obtain ⟨hr, hl⟩ := Table.mem_select.mp (List.mem_of_mem_filter h)
  obtain ⟨hr', hl'⟩ := Table.mem_select.mp (List.mem_of_mem_filter h')
  cases isLatest_unique hr hr' hl hl' hseat
  rw [hr] at hr'
  cases hr'
  rfl

theorem taken_length_le (h : taken rows' now' ⊆ taken rows now) :
    (taken rows' now').length ≤ (taken rows now).length :=
  (List.subperm_of_subset taken_nodup h).length_le

theorem Row.held_mono (h : now ≤ now') (hr : r.held now' = true) : r.held now = true := by
  simp only [Row.held, Bool.and_eq_true, Option.any_eq_true, decide_eq_true_eq] at hr ⊢
  obtain ⟨hrel, free, hfree, hlt⟩ := hr
  exact ⟨hrel, free, hfree, h.trans_lt hlt⟩

/-- Time only frees seats. -/
theorem taken_mono (h : now ≤ now') : taken rows now' ⊆ taken rows now := by
  intro seat hseat
  obtain ⟨id, r, hr, hl, hlive, rfl⟩ := mem_taken.mp hseat
  exact mem_taken.mpr ⟨id, r, hr, hl, hlive.imp_right (Row.held_mono h), rfl⟩

theorem length_filter_or_le {α : Type} {p p' q : α → Bool} {l : List α}
    (h : ∀ x ∈ l, p x = true → p' x = true) :
    (l.filter fun x => p x || q x).length ≤ l.countP p' + l.countP q := by
  have hsplit : (l.filter fun x => p x || q x).length ≤ l.countP p + l.countP q := by
    induction l with
    | nil => simp
    | cons x l ih =>
      have := ih fun y hy => h y (List.mem_cons_of_mem _ hy)
      simp only [List.filter_cons, List.countP_cons]
      cases p x <;> cases q x <;> simp <;> omega
  exact hsplit.trans (Nat.add_le_add_right (List.countP_mono_left h) _)

/-- Where no pending row has expired, `seatCounts` counts every live row. -/
theorem taken_le_seatCounts
    (h : ∀ id r, rows.lookup id = some r → r.live = true → r.used now = true) :
    (taken rows now).length ≤ (seatCounts rows now).1 + (seatCounts rows now).2 := by
  rw [taken, List.length_map]
  exact length_filter_or_le fun e he => h e.1 e.2 (Table.mem_select.mp he).1

theorem seat_le_maxSeat (hr : rows.lookup id = some r) : r.seat_no ≤ maxSeat rows := by
  have hmem := Table.mem_entries.mpr hr
  rw [maxSeat]
  generalize rows.entries = l at hmem ⊢
  induction l with
  | nil => cases hmem
  | cons e l ih =>
    rw [List.foldr_cons]
    rcases List.mem_cons.mp hmem with h | h
    · rw [← h]
      exact le_max_left _ _
    · exact (ih h).trans (le_max_right _ _)

/-- There is always a free number: the one after the highest was never assigned. -/
theorem freeSeatNumber_isSome : (freeSeatNumber rows now).isSome = true := by
  rw [freeSeatNumber, List.find?_isSome]
  refine ⟨maxSeat rows + 1, List.mem_range'_1.mpr ⟨by omega, by omega⟩, ?_⟩
  have hfree : maxSeat rows + 1 ∉ taken rows now := by
    intro h
    obtain ⟨id, r, hr, -, -, hseat⟩ := mem_taken.mp h
    have := seat_le_maxSeat hr
    omega
  simpa using hfree

theorem freeSeatNumber_free (h : freeSeatNumber rows now = some seat) : seat ∉ taken rows now := by
  simpa using List.find?_some h

def LiveLatest (rows : Rows) : Prop :=
  ∀ id r, rows.lookup id = some r → r.live = true → isLatest rows id r = true

theorem LiveLatest.mem_taken (h : LiveLatest rows) (hr : rows.lookup id = some r)
    (hlive : r.live = true) : r.seat_no ∈ taken rows now :=
  Seats.mem_taken.mpr ⟨id, r, hr, h id r hr hlive, .inl hlive, rfl⟩

/-- Every row of `rows'` is one of `rows`, still of its seat and, where it was not live, unchanged. -/
structure LiveOnly (rows rows' : Rows) : Prop where
  back {id : Nat} {r' : Row} : rows'.lookup id = some r' →
    ∃ r, rows.lookup id = some r ∧ r.seat_no = r'.seat_no ∧ (r' = r ∨ r.live = true)
  kept {id : Nat} {r : Row} : rows.lookup id = some r → r.live = false → rows'.lookup id = some r

theorem LiveOnly.refl : LiveOnly rows rows := ⟨fun h => ⟨_, h, rfl, .inl rfl⟩, fun h _ => h⟩

theorem LiveOnly.isLatest (h : LiveOnly rows rows') (hl : isLatest rows id r = true)
    (hseat : r.seat_no = r'.seat_no) : isLatest rows' id r' = true := by
  refine isLatest_iff.mpr fun hr₂ hseat₂ => ?_
  obtain ⟨r₀, hr₀, hs, -⟩ := h.back hr₂
  exact isLatest_iff.mp hl hr₀ (by rw [hs, hseat₂, hseat])

theorem LiveLatest.liveOnly (hl : LiveLatest rows) (h : LiveOnly rows rows') : LiveLatest rows' := by
  intro id r' hr' hlive
  obtain ⟨r, hr, hseat, rfl | hold⟩ := h.back hr'
  · exact h.isLatest (hl id r' hr hlive) rfl
  · exact h.isLatest (hl id r hr hold) hseat

/-- What touches live rows only takes no seat. -/
theorem LiveLatest.taken_subset (hl : LiveLatest rows) (h : LiveOnly rows rows') :
    taken rows' now ⊆ taken rows now := by
  intro seat hseat
  obtain ⟨id, r', hr', hlatest, hlive, rfl⟩ := Seats.mem_taken.mp hseat
  obtain ⟨r, hr, hs, hsame⟩ := h.back hr'
  by_cases hex : ∃ id₂ r₂, rows.lookup id₂ = some r₂ ∧ r₂.live = true ∧ r₂.seat_no = r'.seat_no
  · obtain ⟨id₂, r₂, hr₂, hlive₂, hs₂⟩ := hex
    rw [← hs₂]
    exact hl.mem_taken hr₂ hlive₂
  rcases hsame with rfl | hold
  · refine Seats.mem_taken.mpr ⟨id, r', hr, isLatest_iff.mpr fun {id₂ r₂} hr₂ hs₂ => ?_, hlive, rfl⟩
    have hdead : r₂.live = false := by
      by_contra hlive₂
      exact hex ⟨id₂, r₂, hr₂, by simpa using hlive₂, hs₂⟩
    exact isLatest_iff.mp hlatest (h.kept hr₂ hdead) hs₂
  · exact absurd ⟨id, r, hr, hold, hs⟩ hex

@[simp] theorem lookup_without :
    (without rows gone).lookup id = if id ∈ gone then none else rows.lookup id := by
  rw [without, Table.lookup_delete_key]
  simp

theorem lookup_of_without (h : (without rows gone).lookup id = some r) :
    id ∉ gone ∧ rows.lookup id = some r := by
  rw [lookup_without] at h
  split at h
  · cases h
  next hgone => exact ⟨hgone, h⟩

theorem LiveOnly.without (h : LiveOnly rows rows') :
    LiveOnly (without rows gone) (without rows' gone) where
  back hr' := by
    obtain ⟨hgone, hr'⟩ := lookup_of_without hr'
    obtain ⟨r, hr, hrest⟩ := h.back hr'
    exact ⟨r, by rw [lookup_without, if_neg hgone, hr], hrest⟩
  kept hr hdead := by
    obtain ⟨hgone, hr⟩ := lookup_of_without hr
    rw [lookup_without, if_neg hgone, h.kept hr hdead]

theorem LiveLatest.without (h : LiveLatest rows) : LiveLatest (without rows gone) := by
  intro id r hr hlive
  refine isLatest_iff.mpr fun hr' hseat => ?_
  exact isLatest_iff.mp (h id r (lookup_of_without hr).2 hlive) (lookup_of_without hr').2 hseat

variable {accounts accounts' : List Nat}

/-- What every operation keeps of the rows. -/
structure Sane (rows : Rows) (accounts : List Nat) : Prop where
  latest : LiveLatest rows
  mailbox {id id' a : Nat} {r r' : Row} : rows.lookup id = some r → rows.lookup id' = some r' →
    r.liveOf a = true → r'.liveOf a = true → id = id'
  known {id a : Nat} {r : Row} : rows.lookup id = some r → r.account_id = some a → a ∈ accounts
  pending {id : Nat} {r : Row} : rows.lookup id = some r → r.pending_until ≠ none →
    r.live = true ∧ r.account_id = none

theorem Row.liveOf_iff : r.liveOf a = true ↔ r.account_id = some a ∧ r.live = true := by
  simp [Row.liveOf]

theorem Sane.sub (h : Sane rows accounts) (hsub : ∀ {id r}, rows'.lookup id = some r → rows.lookup id = some r) :
    Sane rows' accounts where
  latest id r hr hlive :=
    isLatest_iff.mpr fun hr' hseat => isLatest_iff.mp (h.latest id r (hsub hr) hlive) (hsub hr') hseat
  mailbox hr hr' ha ha' := h.mailbox (hsub hr) (hsub hr') ha ha'
  known hr ha := h.known (hsub hr) ha
  pending hr hp := h.pending (hsub hr) hp

theorem Sane.without (h : Sane rows accounts) : Sane (without rows gone) accounts :=
  h.sub fun hr => (lookup_of_without hr).2

/-! ## Without the lock -/

theorem confirmSeat_cases {assignmentId accountId : Nat}
    (h : (confirmSeat rows assignmentId accountId).1.lookup id = some r') :
    ∃ r, rows.lookup id = some r ∧ (r' = r ∨ id = assignmentId ∧ r.pending = true ∧
      r' = { r with account_id := some accountId, pending_until := none }) := by
  rw [confirmSeat, Table.lookup_update, Option.map_eq_some_iff] at h
  obtain ⟨r, hr, rfl⟩ := h
  refine ⟨r, hr, ?_⟩
  split
  next hp =>
    rw [Bool.and_eq_true, beq_iff_eq] at hp
    exact .inr ⟨hp.1, hp.2, rfl⟩
  · exact .inl rfl

theorem releaseSeat_cases {accountId holdDays : Nat} {reason : String}
    (h : (releaseSeat rows accountId reason holdDays now).1.lookup id = some r') :
    ∃ r, rows.lookup id = some r ∧ ((r' = r ∧ r.liveOf accountId = false) ∨ r.liveOf accountId = true ∧
      r' = { r with released_at := some now, release_reason := some reason,
                    free_from := some (now + holdDays * day) }) := by
  rw [releaseSeat, Table.lookup_update, Option.map_eq_some_iff] at h
  obtain ⟨r, hr, rfl⟩ := h
  refine ⟨r, hr, ?_⟩
  split
  next hl => exact .inr ⟨hl, rfl⟩
  next hl => exact .inl ⟨rfl, by simpa using hl⟩

theorem dropPendingSeat_cases {assignmentId : Nat}
    (h : (dropPendingSeat rows assignmentId).lookup id = some r) : rows.lookup id = some r := by
  rw [dropPendingSeat, Table.lookup_delete, Option.filter_eq_some_iff] at h
  exact h.1

theorem Row.pending_iff : r.pending = true ↔ r.pending_until ≠ none := Option.isSome_iff_ne_none

/-- What happens without the lock: `w'` follows `w` and the holder of the lock is where it was. -/
structure Free (w w' : Ledger) : Prop where
  rows : LiveOnly w.rows w'.rows
  sane : Sane w'.rows w'.accounts
  nextId : w'.nextId = w.nextId
  clock : w.clock ≤ w'.clock
  tx : w'.tx = w.tx
  accounts : w.accounts ⊆ w'.accounts
  mailbox {id a : Nat} {r' : Row} : a ∈ w.accounts → w'.rows.lookup id = some r' → r'.liveOf a = true →
    w.rows.lookup id = some r'
  pending {id : Nat} {r' : Row} : w'.rows.lookup id = some r' → r'.pending_until ≠ none →
    w.rows.lookup id = some r'

variable {w w' : Ledger} {tx : Tx}

theorem free_tick {time : Nat} (hs : Sane w.rows w.accounts) (h : w.clock ≤ time) :
    Free w { w with clock := time } :=
  ⟨.refl, hs, rfl, h, rfl, fun _ h => h, fun _ h _ => h, fun h _ => h⟩

theorem free_confirmSeat {assignmentId accountId : Nat} (hs : Sane w.rows w.accounts)
    (hnew : accountId ∉ w.accounts) :
    Free w { w with rows := (confirmSeat w.rows assignmentId accountId).1, accounts := accountId :: w.accounts } := by
  have honly : LiveOnly w.rows (confirmSeat w.rows assignmentId accountId).1 := by
    constructor
    · intro id r' hr'
      obtain ⟨r, hr, rfl | ⟨-, hp, rfl⟩⟩ := confirmSeat_cases hr'
      · exact ⟨r', hr, rfl, .inl rfl⟩
      · exact ⟨r, hr, rfl, .inr (hs.pending hr (Row.pending_iff.mp hp)).1⟩
    · intro id r hr hdead
      have hnone : r.pending = false := by
        by_contra hp
        rw [(hs.pending hr (Row.pending_iff.mp (by simpa using hp))).1] at hdead
        cases hdead
      rw [confirmSeat, Table.lookup_update, hr]
      simp [hnone]
  have hold : ∀ {id b r'}, b ∈ w.accounts →
      (confirmSeat w.rows assignmentId accountId).1.lookup id = some r' → r'.liveOf b = true →
      w.rows.lookup id = some r' := by
    intro id b r' hb hr' hl
    obtain ⟨r, hr, rfl | ⟨-, -, rfl⟩⟩ := confirmSeat_cases hr'
    · exact hr
    · cases (Row.liveOf_iff.mp hl).1
      exact absurd hb hnew
  refine ⟨honly, ⟨hs.latest.liveOnly honly, ?_, ?_, ?_⟩, rfl, le_rfl, rfl, List.subset_cons_self _ _, hold, ?_⟩
  · intro id id' b r r' hr hr' hl hl'
    by_cases hb : b ∈ w.accounts
    · exact hs.mailbox (hold hb hr hl) (hold hb hr' hl') hl hl'
    have heq : ∀ {id r}, (confirmSeat w.rows assignmentId accountId).1.lookup id = some r →
        r.liveOf b = true → id = assignmentId := by
      intro id r hr hl
      obtain ⟨r₀, hr₀, rfl | ⟨rfl, -, -⟩⟩ := confirmSeat_cases hr
      · exact absurd (hs.known hr₀ (Row.liveOf_iff.mp hl).1) hb
      · rfl
    exact (heq hr hl).trans (heq hr' hl').symm
  · intro id b r' hr' hb
    obtain ⟨r, hr, rfl | ⟨-, -, rfl⟩⟩ := confirmSeat_cases hr'
    · exact List.mem_cons_of_mem _ (hs.known hr hb)
    · cases hb
      exact List.mem_cons_self
  · intro id r' hr' hp
    obtain ⟨r, hr, rfl | ⟨-, -, rfl⟩⟩ := confirmSeat_cases hr'
    · exact hs.pending hr hp
    · exact absurd rfl hp
  · intro id r' hr' hp
    obtain ⟨r, hr, rfl | ⟨-, -, rfl⟩⟩ := confirmSeat_cases hr'
    · exact hr
    · exact absurd rfl hp

theorem free_dropPendingSeat {assignmentId : Nat} (hs : Sane w.rows w.accounts) :
    Free w { w with rows := dropPendingSeat w.rows assignmentId } := by
  refine ⟨⟨fun h => ⟨_, dropPendingSeat_cases h, rfl, .inl rfl⟩, ?_⟩, hs.sub dropPendingSeat_cases, rfl, le_rfl,
    rfl, fun _ h => h, fun _ h _ => dropPendingSeat_cases h, fun h _ => dropPendingSeat_cases h⟩
  intro id r hr hdead
  have hnone : r.pending = false := by
    by_contra hp
    rw [(hs.pending hr (Row.pending_iff.mp (by simpa using hp))).1] at hdead
    cases hdead
  rw [dropPendingSeat, Table.lookup_delete, hr]
  simp [hnone]

theorem free_releaseSeat {accountId holdDays : Nat} {reason : String} (hs : Sane w.rows w.accounts) :
    Free w { w with rows := (releaseSeat w.rows accountId reason holdDays now).1 } := by
  have hold : ∀ {id r'}, (releaseSeat w.rows accountId reason holdDays now).1.lookup id = some r' →
      r'.live = true → w.rows.lookup id = some r' := by
    intro id r' hr' hl
    obtain ⟨r, hr, ⟨rfl, -⟩ | ⟨-, rfl⟩⟩ := releaseSeat_cases hr'
    · exact hr
    · cases hl
  have hpend : ∀ {id r'}, (releaseSeat w.rows accountId reason holdDays now).1.lookup id = some r' →
      r'.pending_until ≠ none → w.rows.lookup id = some r' := by
    intro id r' hr' hp
    obtain ⟨r, hr, ⟨rfl, -⟩ | ⟨hl, rfl⟩⟩ := releaseSeat_cases hr'
    · exact hr
    · have hnone := (hs.pending hr hp).2
      rw [(Row.liveOf_iff.mp hl).1] at hnone
      cases hnone
  have honly : LiveOnly w.rows (releaseSeat w.rows accountId reason holdDays now).1 := by
    constructor
    · intro id r' hr'
      obtain ⟨r, hr, ⟨rfl, -⟩ | ⟨hl, rfl⟩⟩ := releaseSeat_cases hr'
      · exact ⟨r', hr, rfl, .inl rfl⟩
      · exact ⟨r, hr, rfl, .inr (Row.liveOf_iff.mp hl).2⟩
    · intro id r hr hdead
      rw [releaseSeat, Table.lookup_update, hr]
      simp [Row.liveOf, hdead]
  refine ⟨honly, ⟨hs.latest.liveOnly honly, ?_, ?_, ?_⟩, rfl, le_rfl, rfl, fun _ h => h,
    fun _ hr hl => hold hr (Row.liveOf_iff.mp hl).2, hpend⟩
  · intro id id' b r r' hr hr' hl hl'
    exact hs.mailbox (hold hr (Row.liveOf_iff.mp hl).2) (hold hr' (Row.liveOf_iff.mp hl').2) hl hl'
  · intro id b r' hr' hb
    obtain ⟨r, hr, ⟨rfl, -⟩ | ⟨-, rfl⟩⟩ := releaseSeat_cases hr'
    · exact hs.known hr hb
    · exact hs.known hr hb
  · intro id r' hr' hp
    exact hs.pending (hpend hr' hp) hp

/-! ## Under the lock -/

theorem Sane.redate {days : Nat} (h : Sane rows accounts) : Sane (redate rows days) accounts := by
  have hold : ∀ {id r'}, (Seats.redate rows days).lookup id = some r' → ∃ r, rows.lookup id = some r ∧
      r'.seat_no = r.seat_no ∧ r'.live = r.live ∧ r'.account_id = r.account_id ∧
      r'.pending_until = r.pending_until := by
    intro id r' hr'
    rw [Seats.redate, Table.lookup_update, Option.map_eq_some_iff] at hr'
    obtain ⟨r, hr, rfl⟩ := hr'
    exact ⟨r, hr, by split <;> exact ⟨rfl, rfl, rfl, rfl⟩⟩
  refine ⟨?_, ?_, ?_, ?_⟩
  · intro id r' hr' hlive
    obtain ⟨r, hr, hseat, hl, -⟩ := hold hr'
    refine isLatest_iff.mpr fun hr₂ hs₂ => ?_
    obtain ⟨r₀, hr₀, hs₀, -⟩ := hold hr₂
    exact isLatest_iff.mp (h.latest id r hr (by rw [← hl, hlive])) hr₀ (by rw [← hs₀, hs₂, hseat])
  · intro id id' b r' r₂' hr' hr₂' hl' hl₂'
    obtain ⟨r, hr, -, hl, ha, -⟩ := hold hr'
    obtain ⟨r₂, hr₂, -, hl₂, ha₂, -⟩ := hold hr₂'
    refine @Sane.mailbox _ _ h _ _ b _ _ hr hr₂ ?_ ?_
    · rwa [Row.liveOf, ← ha, ← hl]
    · rwa [Row.liveOf, ← ha₂, ← hl₂]
  · intro id b r' hr' hb
    obtain ⟨r, hr, -, -, ha, -⟩ := hold hr'
    exact h.known hr (ha ▸ hb)
  · intro id r' hr' hp
    obtain ⟨r, hr, -, hl, ha, hpend⟩ := hold hr'
    rw [hl, ha]
    exact h.pending hr (hpend ▸ hp)

/-- No live row of the mailbox. -/
def Alone (rows : Rows) (a : Nat) : Prop := ∀ id r, rows.lookup id = some r → r.liveOf a = false

theorem Sane.reclaim (h : Sane rows accounts) (hr : rows.lookup id = some r) (hl : isLatest rows id r = true)
    (ha : r.account_id = some a) (halone : Alone rows a) :
    Sane (rows.modify id fun r => { r with released_at := none, release_reason := none, free_from := none })
      accounts := by
  have hold : ∀ {id₂ r₂}, (rows.modify id fun r => { r with
      released_at := none, release_reason := none, free_from := none }).lookup id₂ = some r₂ →
      (id₂ ≠ id ∧ rows.lookup id₂ = some r₂) ∨
      (id₂ = id ∧ r₂ = { r with released_at := none, release_reason := none, free_from := none }) := by
    intro id₂ r₂ hr₂
    rw [Table.lookup_modify] at hr₂
    split at hr₂
    next heq =>
      rw [hr] at hr₂
      cases hr₂
      exact .inr ⟨heq, rfl⟩
    next hne => exact .inl ⟨hne, hr₂⟩
  have hseat : ∀ {id₂ r₂}, (rows.modify id fun r => { r with
      released_at := none, release_reason := none, free_from := none }).lookup id₂ = some r₂ →
      ∃ r₀, rows.lookup id₂ = some r₀ ∧ r₀.seat_no = r₂.seat_no := by
    intro id₂ r₂ hr₂
    obtain ⟨-, hr₂⟩ | ⟨rfl, rfl⟩ := hold hr₂
    · exact ⟨r₂, hr₂, rfl⟩
    · exact ⟨r, hr, rfl⟩
  refine ⟨?_, ?_, ?_, ?_⟩
  · intro id₂ r₂ hr₂ hlive
    refine isLatest_iff.mpr fun hr₃ hs₃ => ?_
    obtain ⟨r₀, hr₀, hs₀⟩ := hseat hr₃
    obtain ⟨-, hr₂⟩ | ⟨rfl, rfl⟩ := hold hr₂
    · exact isLatest_iff.mp (h.latest id₂ r₂ hr₂ hlive) hr₀ (hs₀.trans hs₃)
    · exact isLatest_iff.mp hl hr₀ (hs₀.trans hs₃)
  · intro id₂ id₃ b r₂ r₃ hr₂ hr₃ hl₂ hl₃
    obtain ⟨-, hold₂⟩ | ⟨rfl, rfl⟩ := hold hr₂ <;> obtain ⟨-, hold₃⟩ | ⟨rfl, rfl⟩ := hold hr₃
    · exact h.mailbox hold₂ hold₃ hl₂ hl₃
    · cases ha.symm.trans (Row.liveOf_iff.mp hl₃).1
      rw [halone id₂ r₂ hold₂] at hl₂
      cases hl₂
    · cases ha.symm.trans (Row.liveOf_iff.mp hl₂).1
      rw [halone id₃ r₃ hold₃] at hl₃
      cases hl₃
    · rfl
  · intro id₂ b r₂ hr₂ hb
    obtain ⟨-, hr₂⟩ | ⟨rfl, rfl⟩ := hold hr₂
    · exact h.known hr₂ hb
    · exact h.known hr hb
  · intro id₂ r₂ hr₂ hp
    obtain ⟨-, hr₂⟩ | ⟨rfl, rfl⟩ := hold hr₂
    · exact h.pending hr₂ hp
    · exact ⟨rfl, (h.pending hr hp).2⟩

variable {op : Op} {row : Row} {nextId : Nat}

theorem Op.row_eq (h : op.row seat now = some row) : row.seat_no = seat ∧ row.live = true ∧
    (row.pending_until ≠ none → row.account_id = none) ∧
    (∀ a, row.account_id = some a → ∃ email purchased, op = .returnSeat a email purchased) := by
  cases op with
  | reserveSeat email purchased =>
    cases h
    refine ⟨rfl, rfl, fun _ => rfl, ?_⟩
    intro a ha
    cases ha
  | returnSeat accountId email purchased =>
    cases h
    refine ⟨rfl, rfl, fun hp => absurd rfl hp, ?_⟩
    intro a ha
    cases ha
    exact ⟨email, purchased, rfl⟩
  | setHoldDays days => cases h

theorem Sane.insert (h : Sane rows accounts) (hids : ∀ {id r}, rows.lookup id = some r → id < nextId)
    (hfree : seat ∉ taken rows now) (hrow : op.row seat now' = some row)
    (halone : ∀ a email purchased, op = .returnSeat a email purchased → a ∈ accounts ∧ Alone rows a) :
    Sane (rows.insert nextId row) accounts := by
  obtain ⟨hseat, hlive, hpend, hacc⟩ := Op.row_eq hrow
  have hold : ∀ {id r}, (rows.insert nextId row).lookup id = some r →
      id = nextId ∧ r = row ∨ rows.lookup id = some r := by
    intro id r hr
    rw [Table.lookup_insert'] at hr
    split at hr
    next heq =>
      cases hr
      exact .inl ⟨heq, rfl⟩
    next => exact .inr hr
  refine ⟨?_, ?_, ?_, ?_⟩
  · intro id r hr hl
    refine isLatest_iff.mpr fun {id₂ r₂} hr₂ hs₂ => ?_
    obtain ⟨rfl, rfl⟩ | hold₁ := hold hr <;> obtain ⟨rfl, rfl⟩ | hold₂ := hold hr₂
    · exact le_rfl
    · exact (hids hold₂).le
    · refine absurd ?_ hfree
      rw [← hseat, hs₂]
      exact h.latest.mem_taken hold₁ hl
    · exact isLatest_iff.mp (h.latest id r hold₁ hl) hold₂ hs₂
  · intro id id₂ b r r₂ hr hr₂ hl hl₂
    have hout : ∀ {id₀ r₀}, row.liveOf b = true → rows.lookup id₀ = some r₀ → r₀.liveOf b = true → False := by
      intro id₀ r₀ hb hr₀ hl₀
      obtain ⟨email, purchased, hop⟩ := hacc b (Row.liveOf_iff.mp hb).1
      rw [(halone b email purchased hop).2 id₀ r₀ hr₀] at hl₀
      cases hl₀
    obtain ⟨rfl, rfl⟩ | hold₁ := hold hr <;> obtain ⟨rfl, rfl⟩ | hold₂ := hold hr₂
    · rfl
    · exact (hout hl hold₂ hl₂).elim
    · exact (hout hl₂ hold₁ hl).elim
    · exact h.mailbox hold₁ hold₂ hl hl₂
  · intro id b r hr hb
    obtain ⟨-, rfl⟩ | hr := hold hr
    · obtain ⟨email, purchased, hop⟩ := hacc b hb
      exact (halone b email purchased hop).1
    · exact h.known hr hb
  · intro id r hr hp
    obtain ⟨-, rfl⟩ | hr := hold hr
    · exact ⟨hlive, hpend hp⟩
    · exact h.pending hr hp

theorem taken_insert (hids : ∀ {id r}, rows.lookup id = some r → id < nextId) :
    taken (rows.insert nextId row) now ⊆ row.seat_no :: taken rows now := by
  intro seat hseat
  obtain ⟨id, r, hr, hl, hlive, rfl⟩ := mem_taken.mp hseat
  rw [Table.lookup_insert'] at hr
  split at hr
  · cases hr
    exact List.mem_cons_self
  · refine List.mem_cons_of_mem _ (mem_taken.mpr ⟨id, r, hr, isLatest_iff.mpr fun {id₂ r₂} hr₂ hs₂ => ?_, hlive, rfl⟩)
    exact isLatest_iff.mp hl ((AList.lookup_insert_ne (hids hr₂).ne).trans hr₂) hs₂

end MailExpert.Seats
