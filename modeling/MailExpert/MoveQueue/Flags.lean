import MailExpert.MoveQueue.Invariant

/-!
# Deferred read and star changes

The last value `deferFlags` took for a row is carried by the row's moves (`Chain.flag`: the last
move's own value, else its predecessor's), or it is in the flag-push queue, or it was given to
`setFlags` since. `Accounted` is this ledger for one flag of one row, and each way a move can end
is one lemma about it. `keepsFlags` says which steps keep the ledger (`deferred_flag_kept`); a step
that does not loses the value it is about (`lost_of_step`).
-/

namespace MailExpert.MoveQueue

/-- The value a chain carries for its row. -/
def Chain.flag : Chain → Flag → Option Bool
  | idle, _ => none
  | one _ mv, flag => mv.flag flag
  | two _ pv _ mv, flag => mv.flag flag <|> pv.flag flag

/-- The value a move carries for its row is in the flag-push queue, or was given to the server. -/
def storedElsewhere (s : State) (mv : Move) (flag : Flag) : Bool :=
  (mv.flag flag).all fun value => s.flagPush.lookup (mv.messageRowId, flag) = some value ∨
    s.given.lookup (mv.messageRowId, flag) = some value

/-- The step takes a carried value along, or stores it. -/
def keepsFlag (s : State) (flag : Flag) : Label → Bool
  | .settle n _ folder store _ => (s.db.moves.lookup n).all fun cur =>
    (s.db.follower n).isSome ∨ storedElsewhere s cur flag ∨
      (store ≠ .cutOff ∧ ¬(cur.dropRow ∧ folder.getD cur.destFolder = cur.destFolder))
  | .revert n _ => (s.db.moves.lookup n).all fun cur => (s.db.follower n).all fun (_, next) =>
    (next.flag flag).isSome ∨ storedElsewhere s cur flag
  | _ => true

def keepsFlags (s : State) (l : Label) : Bool := keepsFlag s .seen l && keepsFlag s .flagged l

/-- What is carried was accepted, and what was accepted is carried, queued or given. -/
structure Accounted (carried accepted push given : Option Bool) : Prop where
  latest : ∀ v, carried = some v → accepted = some v
  kept : ∀ v, accepted = some v → carried = some v ∨ push = some v ∨ given = some v

namespace Accounted

variable {carried accepted push given : Option Bool} {v : Bool}

theorem fresh : Accounted none none push given := ⟨nofun, nofun⟩

theorem taken : Accounted (some v) (some v) push given := ⟨fun _ h => h, fun _ h => .inl h⟩

/-- The last move ends, and its value goes to the flag-push queue. -/
theorem queued (h : Accounted carried accepted push given) :
    Accounted none accepted (carried <|> push) given := by
  refine ⟨nofun, fun v hv => .inr ?_⟩
  cases carried with
  | none => exact (h.kept v hv).resolve_left nofun
  | some w => exact .inl ((h.latest w rfl).symm.trans hv)

/-- The last move ends, and the server takes its value. -/
theorem stored (h : Accounted carried accepted push given) :
    Accounted none accepted (if carried.isSome then none else push) (carried <|> given) := by
  refine ⟨nofun, fun v hv => .inr ?_⟩
  cases carried with
  | none => exact (h.kept v hv).resolve_left nofun
  | some w => exact .inr ((h.latest w rfl).symm.trans hv)

/-- The last move ends, and the server does not take its value. -/
theorem failed (h : Accounted carried accepted push given) :
    Accounted none accepted (carried <|> push) (carried <|> given) := by
  refine ⟨nofun, fun v hv => .inr ?_⟩
  cases carried with
  | none => exact (h.kept v hv).resolve_left nofun
  | some w => exact .inl ((h.latest w rfl).symm.trans hv)

/-- Nothing takes the value of the last move, which is stored elsewhere. -/
theorem forgotten (h : Accounted carried accepted push given)
    (hs : ∀ v, carried = some v → push = some v ∨ given = some v) :
    Accounted none accepted push given := by
  refine ⟨nofun, fun v hv => .inr ?_⟩
  rcases h.kept v hv with hc | he
  · exact hs v hc
  · exact he

/-- The predecessor's value is lost, which is stored elsewhere or has a newer one over it. -/
theorem superseded {newer older : Option Bool} (h : Accounted (newer <|> older) accepted push given)
    (hs : newer.isSome ∨ ∀ v, older = some v → push = some v ∨ given = some v) :
    Accounted newer accepted push given := by
  cases newer with
  | some w => exact h
  | none => exact h.forgotten (hs.resolve_left nofun)

end Accounted

variable {s s' : State} {l : Label} {db db' : Db} {r r' n k p : Nat} {m : Message}
  {mv cur : Move} {c c' : Chain} {flag flag' : Flag} {value : Bool}

theorem Move.flag_setFlag :
    (mv.setFlag flag' value).flag flag = if flag = flag' then some value else mv.flag flag := by
  cases flag <;> cases flag' <;> rfl

theorem Move.flag_handFlags : (mv.handFlags cur).flag flag = (mv.flag flag <|> cur.flag flag) := by
  cases flag <;> rfl

theorem flag_startFrom {folder : String} {newUid : Int} {now : Nat} :
    (Db.startFrom cur folder newUid now mv).flag flag = (mv.flag flag <|> cur.flag flag) := by
  cases flag <;> rfl

theorem Move.flag_restart {now : Nat} : (cur.restart now mv).flag flag = mv.flag flag := by
  cases flag <;> rfl

theorem Move.flag_retarget {target : Target} {now : Nat} :
    (mv.retarget target now).flag flag = mv.flag flag := by
  cases flag <;> rfl

theorem flag_newMove {account now : Nat} {target : Target} :
    (Db.newMove account r m target now).flag flag = none := by
  cases flag <;> rfl

theorem flag_nextMove {now : Nat} {target : Target} :
    (Db.nextMove n mv target now).flag flag = none := by
  cases flag <;> rfl

theorem lookup_pushFlags {push : FlagTable} :
    (pushFlags push r mv).lookup (r', flag) =
      if r' = r then (mv.flag flag <|> push.lookup (r', flag)) else push.lookup (r', flag) := by
  cases hs : mv.setSeen <;> cases hf : mv.setFlagged <;> cases flag <;>
    simp [pushFlags, Move.flag, hs, hf, Table.lookup_insert']

theorem lookup_resolveFlags {push : FlagTable} :
    (resolveFlags push r mv).lookup (r', flag) =
      if r' = r ∧ (mv.flag flag).isSome then none else push.lookup (r', flag) := by
  cases hs : mv.setSeen <;> cases hf : mv.setFlagged <;> cases flag <;>
    simp [resolveFlags, Move.flag, hs, hf, Table.lookup_erase']

/-- The value a chain carries is on one of its moves. -/
theorem Chain.exists_of_flag (h : c.flag flag = some value) :
    ∃ n mv, (n, mv) ∈ c.moves ∧ mv.flag flag = some value := by
  cases c with
  | idle => cases h
  | one n mv => exact ⟨n, mv, by simp, h⟩
  | two p pv n mv =>
    simp only [Chain.flag] at h
    cases hn : mv.flag flag with
    | some v =>
      rw [hn] at h
      exact ⟨n, mv, by simp, hn.trans h⟩
    | none =>
      rw [hn] at h
      exact ⟨p, pv, by simp, h⟩

theorem Chain.flag_map {f : Nat → Move → Move}
    (hf : ∀ n mv, (n, mv) ∈ c.moves → (f n mv).flag flag = mv.flag flag) :
    (c.map f).flag flag = c.flag flag := by
  cases c with
  | idle => rfl
  | one n mv => exact hf n mv (by simp)
  | two p pv n mv =>
    have hn := hf n mv (by simp)
    have hp := hf p pv (by simp)
    simp only [map, Chain.flag, hn, hp]

/-! ## The ledger over a run -/

/-- The ledger of the row `r`, whose moves are in the state `c`. -/
structure Ledger (s : State) (r : Nat) (c : Chain) : Prop where
  at' : At s.db r c
  accounted : ∀ flag, Accounted (c.flag flag) (s.accepted.lookup (r, flag))
    (s.flagPush.lookup (r, flag)) (s.given.lookup (r, flag))

def FlagsKept (s : State) : Prop := ∀ r, ∃ c, Ledger s r c

theorem FlagsKept.init (h : Initial s) : FlagsKept s := by
  intro r
  obtain ⟨c, hc⟩ := (Inv.init h).chained.chain r
  obtain rfl : c = .idle := by
    apply Chain.eq_idle
    intro n mv hmem
    have hn := hc.lookup hmem
    rw [h.2.1] at hn
    cases hn
  refine ⟨.idle, hc, fun flag => ?_⟩
  rw [h.2.2.2.2.2.1]
  exact .fresh

/-- A write on the worker's moves leaves their flags alone. -/
theorem FlagsKept.updateMoves (h : FlagsKept s) {ids : List Nat} {q : Move → Bool} {f : Move → Move}
    {held : List Nat} (hlink : ∀ mv, q mv = true → SameLinks mv (f mv))
    (hflag : ∀ mv flag, (f mv).flag flag = mv.flag flag) :
    FlagsKept { s with db := s.db.updateMoves ids q f, held } := by
  intro r
  obtain ⟨c, hc, hacc⟩ := h r
  refine ⟨c.map fun n mv => if n ∈ ids ∧ q mv = true then f mv else mv, ?_, fun flag => ?_⟩
  · exact hc.relink (fun _ mv _ => .ite fun hq => hlink mv hq.2) rfl fun _ => Db.updateMoves_lookup
  · rw [Chain.flag_map fun n mv _ => ?_]
    · exact hacc flag
    · split
      · exact hflag mv flag
      · rfl

/-- The three tables of the ledger agree on the rows other than `r`. -/
def SameLedger (s s' : State) (r : Nat) : Prop :=
  ∀ r' flag, r' ≠ r → s'.accepted.lookup (r', flag) = s.accepted.lookup (r', flag) ∧
    s'.flagPush.lookup (r', flag) = s.flagPush.lookup (r', flag) ∧
    s'.given.lookup (r', flag) = s.given.lookup (r', flag)

theorem FlagsKept.rowWrite (h : FlagsKept s) (hw : RowWrite s.db s'.db r c')
    (hother : SameLedger s s' r)
    (hrow : ∀ flag, Accounted (c'.flag flag) (s'.accepted.lookup (r, flag))
      (s'.flagPush.lookup (r, flag)) (s'.given.lookup (r, flag))) : FlagsKept s' := by
  intro r'
  by_cases hr : r' = r
  · subst hr
    exact ⟨c', hw.at', hrow⟩
  · obtain ⟨c, hc, hacc⟩ := h r'
    refine ⟨c, hw.other hr hc, fun flag => ?_⟩
    obtain ⟨ha, hp, hg⟩ := hother r' flag hr
    rw [ha, hp, hg]
    exact hacc flag

/-- `deferFlags` on one row writes the value its chain carries. -/
theorem At.deferFlag (hc : At db r' c) (he : db.deferFlag r flag value = some db') :
    ∃ c', At db' r' c' ∧ ∀ f, c'.flag f = if r' = r ∧ f = flag then some value else c.flag f := by
  obtain ⟨m, mv, hm, hu, hmv, hr, rfl⟩ := Db.deferFlag_some.mp he
  let f : Nat → Move → Move := fun k old =>
    if k = m.uid.natAbs then old.setFlag flag value else old
  have hat : At { db with moves := db.moves.insert m.uid.natAbs (mv.setFlag flag value) } r'
      (c.map f) := by
    refine hc.relink (fun k old _ => ?_) rfl fun k => ?_
    · simp only [f]
      split
      · exact .setFlag
      · exact .refl
    rw [Table.lookup_insert']
    split
    · next hk =>
      subst hk
      rw [hmv]
      simp [f]
    · next hk => simp only [f, hk, if_false, Option.map_id']
  refine ⟨_, hat, fun f' => ?_⟩
  by_cases hrr : r' = r
  · subst hrr
    have hpl := hc.place hm
    have hmem := hc.mem hmv hr
    cases c with
    | idle => simp at hmem
    | one n old =>
      have hn : n = m.uid.natAbs := by rw [hpl.1, natAbs_placeholderUid]
      simp only [Chain.map, Chain.flag, f, hn, if_true, Move.flag_setFlag, true_and]
    | two p pv n old =>
      have hn : n = m.uid.natAbs := by rw [hpl.1, natAbs_placeholderUid]
      have hp : p ≠ m.uid.natAbs := hn ▸ hc.wellFormed.1
      simp only [Chain.map, Chain.flag, f, hn, hp, if_true, if_false, Move.flag_setFlag, true_and]
      split <;> simp
  · rw [if_neg fun h => hrr h.1]
    apply Chain.flag_map
    intro k kv hk
    have hne : k ≠ m.uid.natAbs := by
      rintro rfl
      have hkv := Option.some.inj ((hc.lookup hk).symm.trans hmv)
      exact hrr ((hc.rowId hk).symm.trans (hkv ▸ hr))
    simp [f, hne]

theorem FlagsKept.accept (h : FlagsKept s) (he : s.db.deferFlag r flag value = some db')
    {push : FlagTable}
    (hpush : ∀ k, k ≠ (r, flag) → push.lookup k = s.flagPush.lookup k) :
    FlagsKept { s.accept db' r flag value with flagPush := push } := by
  intro r'
  obtain ⟨c, hc, hacc⟩ := h r'
  obtain ⟨c', hc', hflag⟩ := hc.deferFlag he
  refine ⟨c', hc', fun f => ?_⟩
  rw [hflag]
  simp only [State.accept, Table.lookup_insert', Table.lookup_erase', Prod.mk.injEq]
  split
  · exact .taken
  · next hne =>
    rw [hpush (r', f) fun h => hne (Prod.mk.inj h)]
    exact hacc f

theorem FlagsKept.deferFlags (h : FlagsKept s) (rowIds : List Nat) :
    FlagsKept (rowIds.foldl (fun s r => deferFlag s r flag value) s) := by
  induction rowIds generalizing s with
  | nil => exact h
  | cons r rowIds ih =>
    have hd : FlagsKept (deferFlag s r flag value) := by
      rw [deferFlag]
      split
      · next he => exact h.accept he fun _ _ => rfl
      · exact h
    exact ih hd

theorem SameLedger.refl {db : Db} : SameLedger s { s with db } r := fun _ _ _ => ⟨rfl, rfl, rfl⟩

theorem SameLedger.push {db : Db} :
    SameLedger s { s with db, flagPush := pushFlags s.flagPush r mv } r := by
  intro r' flag hr
  refine ⟨rfl, ?_, rfl⟩
  rw [lookup_pushFlags, if_neg hr]

theorem SameLedger.storeSettledFlags {db : Db} {store : Store} :
    SameLedger s (storeSettledFlags { s with db } r mv store) r := by
  intro r' flag hr
  cases store with
  | stored =>
    refine ⟨rfl, ?_, ?_⟩
    · exact lookup_resolveFlags.trans (if_neg fun h => hr h.1)
    · exact lookup_pushFlags.trans (if_neg hr)
  | failed => exact ⟨rfl, lookup_pushFlags.trans (if_neg hr), lookup_pushFlags.trans (if_neg hr)⟩
  | cutOff => exact ⟨rfl, rfl, rfl⟩

theorem storedElsewhere_iff : storedElsewhere s mv flag = true ↔ ∀ v, mv.flag flag = some v →
    s.flagPush.lookup (mv.messageRowId, flag) = some v ∨
      s.given.lookup (mv.messageRowId, flag) = some v := by
  cases h : mv.flag flag <;> simp [storedElsewhere, h]

theorem keepsFlags_iff : keepsFlags s l = true ↔ ∀ flag, keepsFlag s flag l = true := by
  simp only [keepsFlags, Bool.and_eq_true]
  constructor
  · rintro ⟨hs, hf⟩ flag
    cases flag
    · exact hs
    · exact hf
  · exact fun h => ⟨h .seen, h .flagged⟩

/-- A settle hands the carried values to the follower, or stores them. -/
theorem FlagsKept.settle (hinv : Inv s) (h : FlagsKept s) {newUid : Int} {folder : Option String}
    {store : Store} {now : Nat} (hheld : n ∈ s.held) (hu : 0 < newUid)
    (hg : ∀ flag, keepsFlag s flag (.settle n newUid folder store now) = true)
    (hs : settle s n newUid folder store now = some s') : FlagsKept s' := by
  have hch := hinv.chained
  simp only [MoveQueue.settle, Option.map_eq_some_iff, Prod.exists] at hs
  obtain ⟨out, db, he, rfl⟩ := hs
  obtain ⟨mv, hmv⟩ := Db.settle_lookup he
  obtain ⟨c, hc, hacc⟩ := h mv.messageRowId
  rcases hinv.starts hheld hmv hc with rfl | ⟨k, kv, rfl⟩
  · obtain ⟨hw, hop, -, hrow⟩ := hc.settle_one hch hu he
    have hlost : ∀ flag, (mv.dropRow ∧ folder.getD mv.destFolder = mv.destFolder) ∨
        store = .cutOff → storedElsewhere s mv flag = true := by
      intro flag hend
      have hk := hg flag
      simp only [keepsFlag, hmv, Option.all_some, (hc.follower hch).1 rfl, decide_eq_true_eq] at hk
      rcases hk with hnext | hk | hk
      · cases hnext
      · exact hk
      · exact absurd hend (not_or.mpr ⟨hk.2, hk.1⟩)
    rw [hop]
    split
    · have hw' : RowWrite s.db (storeSettledFlags { s with db } mv.messageRowId mv store).db
          mv.messageRowId .idle := by
        cases store <;> exact hw
      refine h.rowWrite hw' .storeSettledFlags fun flag => ?_
      cases store with
      | stored =>
        have hst := (hacc flag).stored
        simpa only [storeSettledFlags, lookup_pushFlags, lookup_resolveFlags, true_and, if_true]
      | failed =>
        have hst := (hacc flag).failed
        simpa only [storeSettledFlags, lookup_pushFlags, if_true]
      | cutOff => exact (hacc flag).forgotten (storedElsewhere_iff.mp (hlost flag (.inr rfl)))
    · next hnone =>
      refine h.rowWrite hw .refl fun flag => (hacc flag).forgotten ?_
      exact storedElsewhere_iff.mp (hlost flag (.inl (not_not.mp (hnone ∘ hrow.mpr))))
  · obtain ⟨hw, -, -, hrow⟩ := hc.settle_two hch hu he
    rw [hrow]
    refine h.rowWrite hw .refl fun flag => ?_
    have hflag : (Chain.one k (Db.startFrom mv (folder.getD mv.destFolder) newUid now kv)).flag
        flag = (Chain.two n mv k kv).flag flag := flag_startFrom
    rw [hflag]
    exact hacc flag

/-- A revert keeps the values of a row that goes back, and the newer ones of a follower. -/
theorem FlagsKept.revert (hinv : Inv s) (h : FlagsKept s) {now : Nat} (hheld : n ∈ s.held)
    (hg : ∀ flag, keepsFlag s flag (.revert n now) = true) (hs : revert s n now = some s') :
    FlagsKept s' := by
  have hch := hinv.chained
  simp only [MoveQueue.revert, Option.map_eq_some_iff, Prod.exists] at hs
  obtain ⟨out, db, he, rfl⟩ := hs
  obtain ⟨mv, hmv⟩ := Db.revert_lookup he
  obtain ⟨c, hc, hacc⟩ := h mv.messageRowId
  rcases hinv.starts hheld hmv hc with rfl | ⟨k, kv, rfl⟩
  · obtain ⟨hw, hop, -, hrow⟩ := hc.revert_one hch he
    rw [hop, if_pos hrow]
    refine h.rowWrite hw .push fun flag => ?_
    have hq := (hacc flag).queued
    simpa only [lookup_pushFlags, if_true]
  · obtain ⟨hw, -, -, hrow⟩ := hc.revert_two hch he
    rw [hrow]
    refine h.rowWrite hw .refl fun flag => ?_
    have hk := hg flag
    simp only [keepsFlag, hmv, Option.all_some, (hc.follower hch).2 rfl, decide_eq_true_eq,
      storedElsewhere_iff] at hk
    have hflag : (Chain.one k (mv.restart now kv)).flag flag = kv.flag flag := Move.flag_restart
    rw [hflag]
    exact (hacc flag).superseded hk

theorem FlagsKept.cancelPending (hinv : Inv s) (h : FlagsKept s) {account : Nat} {dest : String}
    (hs : cancelPending s account r dest = some s') : FlagsKept s' := by
  have hch := hinv.chained
  simp only [MoveQueue.cancelPending, Option.map_eq_some_iff, Prod.exists] at hs
  obtain ⟨op, db, he, rfl⟩ := hs
  obtain ⟨c, hc, hacc⟩ := h r
  rcases hc.cancelPending hch he with ⟨n, rfl, hsrc, hw⟩ | ⟨p, pv, n, rfl, hsrc, hw⟩
  · rw [if_pos hsrc]
    refine h.rowWrite hw .push fun flag => ?_
    have hq := (hacc flag).queued
    simpa only [lookup_pushFlags, if_true]
  · rw [hsrc]
    refine h.rowWrite hw .refl fun flag => ?_
    have hflag : (Chain.one p (op.handFlags pv)).flag flag = (Chain.two p pv n op).flag flag :=
      Move.flag_handFlags
    rw [hflag]
    exact hacc flag

theorem FlagsKept.retargetPending (hch : Chained s.db) (h : FlagsKept s) {account now : Nat}
    {target : Target} (he : s.db.retargetPending account r target now = some db') :
    FlagsKept { s with db := db' } := by
  obtain ⟨c, hc, hacc⟩ := h r
  rcases hc.retargetPending hch he with ⟨m, n, mv, rfl, -, -, hw⟩ | ⟨p, pv, n, mv, rfl, hw⟩
  · refine h.rowWrite hw .refl fun flag => ?_
    have hflag : (Chain.one n (mv.retarget target now)).flag flag = mv.flag flag :=
      Move.flag_retarget
    rw [hflag]
    exact hacc flag
  · refine h.rowWrite hw .refl fun flag => ?_
    rw [Chain.flag, Move.flag_retarget]
    exact hacc flag

theorem FlagsKept.followPending (hch : Chained s.db) (h : FlagsKept s) {account now : Nat}
    {target : Target} (he : s.db.followPending account r target now = some db') :
    FlagsKept { s with db := db' } := by
  obtain ⟨c, hc, hacc⟩ := h r
  obtain ⟨n, mv, rfl, -, hw⟩ := hc.followPending hch he
  refine h.rowWrite hw .refl fun flag => ?_
  rw [Chain.flag, flag_nextMove]
  exact hacc flag

theorem FlagsKept.enqueueRows (hch : Chained s.db) (h : FlagsKept s) {account now : Nat}
    {target : Target} {rowIds : List Nat} :
    FlagsKept { s with db := s.db.enqueueRows account rowIds target now } := by
  refine (hch.enqueueRows (P := fun db => FlagsKept { s with db }) ?_ rowIds h).2
  intro db db' r m _ hdb hat _ hw
  obtain ⟨c, hc, hacc⟩ := hdb r
  obtain rfl := hc.eq_idle hat
  refine hdb.rowWrite hw (fun _ _ _ => ⟨rfl, rfl, rfl⟩) fun flag => ?_
  rw [Chain.flag, flag_newMove]
  exact hacc flag

/-- A change on a letter at its server location ends the ledger of its flag. -/
theorem FlagsKept.storeFlag (h : FlagsKept s) (hm : s.db.messages.lookup r = some m)
    (hu : 0 < m.uid) {push : FlagTable}
    (hpush : ∀ k, k ≠ (r, flag) → push.lookup k = s.flagPush.lookup k) :
    FlagsKept { s with
      accepted := s.accepted.erase (r, flag), given := s.given.erase (r, flag)
      flagPush := push } := by
  intro r'
  obtain ⟨c, hc, hacc⟩ := h r'
  refine ⟨c, hc, fun f => ?_⟩
  by_cases hk : (r', f) = (r, flag)
  · obtain ⟨rfl, rfl⟩ := Prod.mk.inj hk
    obtain rfl := hc.idle_of_pos hm hu
    rw [AList.lookup_erase]
    exact .fresh
  · rw [AList.lookup_erase_ne hk, AList.lookup_erase_ne hk, hpush _ hk]
    exact hacc f

/-- A row that goes because its letter is nowhere takes its ledger along. -/
theorem FlagsKept.drop (hinv : Inv s) (h : FlagsKept s) (hheld : n ∈ s.held)
    (hs : drop s n = some s') : FlagsKept s' := by
  have hch := hinv.chained
  simp only [MoveQueue.drop, Option.map_eq_some_iff] at hs
  obtain ⟨db, he, rfl⟩ := hs
  obtain ⟨mv, hmv⟩ := Db.drop_lookup he
  have hs := (hinv.held n hheld).2 mv hmv
  have hlookup {k : Nat × Flag} : (s.accepted.delete fun k _ => (db.messages.lookup k.1).isNone ∧
      (s.db.messages.lookup k.1).isSome).lookup k =
        if (db.messages.lookup k.1).isNone ∧ (s.db.messages.lookup k.1).isSome then none
        else s.accepted.lookup k := by
    simp only [Table.lookup_delete_key, decide_eq_true_eq]
  obtain ⟨c₀, hc₀⟩ := hch.chain mv.messageRowId
  obtain ⟨hw, hgone⟩ := hc₀.drop hch hmv rfl hs he
  intro r'
  obtain ⟨c, hc, hacc⟩ := h r'
  by_cases hr : r' = mv.messageRowId
  · subst hr
    obtain ⟨m, hm⟩ := hc.row (hc.mem hmv rfl)
    refine ⟨.idle, hw.at', fun flag => ?_⟩
    rw [hlookup, if_pos (by simp [hgone, hm])]
    exact .fresh
  · refine ⟨c, hw.other hr hc, fun flag => ?_⟩
    rw [hlookup]
    split
    · -- only a row at a server location goes along, and it carries nothing
      next hvanish =>
      obtain ⟨m, hm⟩ := Option.isSome_iff_exists.mp hvanish.2
      by_cases hu : 0 < m.uid
      · obtain rfl := hc.idle_of_pos hm hu
        exact .fresh
      · have hstays := (hw.rows r' m hr).2 (Int.not_lt.mp hu) hm
        simp [hstays] at hvanish
    · exact hacc flag

/-- Every step that keeps the carried values keeps the ledger. -/
theorem FlagsKept.step (hinv : Inv s) (h : FlagsKept s) (hg : keepsFlags s l = true)
    (hstep : step s l = some s') : FlagsKept s' := by
  have hch := hinv.chained
  rw [keepsFlags_iff] at hg
  cases l with
  | syncInsert id m =>
    simp only [MoveQueue.step, Option.ite_none_right_eq_some, Option.some.injEq] at hstep
    obtain ⟨⟨hn, hu, -, hno⟩, rfl⟩ := hstep
    have hat := At.of_unmoved hn hno
    obtain ⟨c, hc, hacc⟩ := h id
    obtain rfl := hc.eq_idle hat
    exact h.rowWrite (hat.syncInsert hu) .refl hacc
  | storeFlag rowId flag value ok =>
    simp only [MoveQueue.step, Option.bind_eq_some_iff, Option.ite_none_right_eq_some,
      Option.some.injEq] at hstep
    obtain ⟨m, hm, hu, rfl⟩ := hstep
    refine h.storeFlag hm hu fun k hk => ?_
    split
    · exact AList.lookup_erase_ne hk
    · exact AList.lookup_insert_ne hk
  | enqueueRows account rowIds target now =>
    simp only [MoveQueue.step, Option.some.injEq] at hstep
    subst hstep
    exact h.enqueueRows hch
  | cancelPending account r dest => exact h.cancelPending hinv hstep
  | retargetPending account r target now =>
    simp only [MoveQueue.step, Option.map_eq_some_iff] at hstep
    obtain ⟨db, he, rfl⟩ := hstep
    exact h.retargetPending hch he
  | followPending account r target now =>
    simp only [MoveQueue.step, Option.map_eq_some_iff] at hstep
    obtain ⟨db, he, rfl⟩ := hstep
    exact h.followPending hch he
  | absorbFlagPush rowId flag =>
    simp only [MoveQueue.step, Option.bind_eq_bind, Option.bind_eq_some_iff,
      Option.some.injEq] at hstep
    obtain ⟨value, -, db, he, rfl⟩ := hstep
    exact h.accept he fun k hk => AList.lookup_erase_ne hk
  | deferFlags rowIds flag value =>
    simp only [MoveQueue.step, Option.some.injEq] at hstep
    subst hstep
    exact h.deferFlags rowIds
  | pick n =>
    simp only [MoveQueue.step, Option.ite_none_right_eq_some, Option.some.injEq] at hstep
    obtain ⟨-, rfl⟩ := hstep
    intro r
    obtain ⟨c, hc, hacc⟩ := h r
    exact ⟨c, hc, hacc⟩
  | settle n newUid folder store now =>
    simp only [MoveQueue.step, Option.ite_none_right_eq_some] at hstep
    obtain ⟨⟨hheld, hu⟩, hstep⟩ := hstep
    exact h.settle hinv hheld hu hg hstep
  | revert n now =>
    simp only [MoveQueue.step, Option.ite_none_right_eq_some] at hstep
    obtain ⟨hheld, hstep⟩ := hstep
    exact h.revert hinv hheld hg hstep
  | drop n =>
    simp only [MoveQueue.step, Option.ite_none_right_eq_some] at hstep
    obtain ⟨hheld, hstep⟩ := hstep
    exact h.drop hinv hheld hstep
  | _ =>
    obtain ⟨ids, q, f, held, hlink, hflag, rfl⟩ := step_updateMoves rfl hstep
    exact h.updateMoves hlink hflag

/-- The value is on a move of the row, in the flag-push queue, or was given to `setFlags`. -/
def FlagHeld (s : State) (r : Nat) (flag : Flag) (value : Bool) : Prop :=
  (∃ n mv, s.db.moves.lookup n = some mv ∧ mv.messageRowId = r ∧ mv.flag flag = some value) ∨
    s.flagPush.lookup (r, flag) = some value ∨ s.given.lookup (r, flag) = some value

theorem FlagsKept.flagHeld (h : FlagsKept s) (ha : s.accepted.lookup (r, flag) = some value) :
    FlagHeld s r flag value := by
  obtain ⟨c, hc, hacc⟩ := h r
  rcases (hacc flag).kept value ha with hcarried | helse
  · obtain ⟨n, mv, hmem, hf⟩ := Chain.exists_of_flag hcarried
    exact .inl ⟨n, mv, hc.lookup hmem, hc.rowId hmem, hf⟩
  · exact .inr helse

theorem flagsKept : system.Invariant (fun s l => keepsFlags s l = true)
    fun s => Inv s ∧ FlagsKept s :=
  inv.strengthen (fun _ => FlagsKept.init) fun _ _ _ hinv h hg hstep => h.step hinv hg hstep

/-- **No deferred flag change is lost**, in every run whose steps keep what moves carry. -/
theorem deferred_flag_kept (h : system.ReachesUnder (fun s l => keepsFlags s l = true) s)
    (ha : s.accepted.lookup (r, flag) = some value) : FlagHeld s r flag value :=
  (flagsKept.reachesUnder h).2.flagHeld ha

/-- A letter marked read while it moves, which is then moved on and settles. -/
theorem deferred_flag_kept_followed : ∃ s : State, s.accepted.lookup (7, .seen) = some true ∧
    s.db.moves.keys = [2] ∧ FlagHeld s 7 .seen true := by
  have htrace : (system.exec (fun s l => keepsFlags s l = true)
      (.ofRows [(7, { account := 1, folder := "INBOX", uid := 40, messageId := some "<a@b>" })])
      [.enqueueRows 1 [7] { dest := "Work" } 10, .claim [1] 11, .deferFlags [7] .seen true,
        .followPending 1 7 { dest := "Done" } 12, .settle 1 90 none .stored 13]).any
      (fun s => s.accepted.lookup (7, .seen) = some true ∧ s.db.moves.keys = [2]) = true := by
    decide
  obtain ⟨s, hs, hp⟩ := TransitionSystem.reaches_of_exec (Initial.ofRows (by simp)) htrace
  obtain ⟨ha, hk⟩ := of_decide_eq_true hp
  exact ⟨s, ha, hk, deferred_flag_kept hs ha⟩

/-- A carried value that no move of the row carries on and nothing stores. -/
theorem Ledger.lost (h : Ledger s r c) (hcarried : c.flag flag = some value)
    (hat : At s'.db r c') (hmoves : ∀ n mv, (n, mv) ∈ c'.moves → mv.flag flag = none)
    (hsame : s'.accepted = s.accepted ∧ s'.flagPush = s.flagPush ∧ s'.given = s.given)
    (helse : ¬(s.flagPush.lookup (r, flag) = some value ∨ s.given.lookup (r, flag) = some value)) :
    ∃ r v, s'.accepted.lookup (r, flag) = some v ∧ ¬FlagHeld s' r flag v := by
  obtain ⟨ha, hp, hg⟩ := hsame
  refine ⟨r, value, ha ▸ (h.accounted flag).latest value hcarried, ?_⟩
  rintro (⟨n, mv, hn, hr, hf⟩ | hheld)
  · rw [hmoves n mv (hat.mem hn hr)] at hf
    cases hf
  · rw [hp, hg] at hheld
    exact helse hheld

theorem storedElsewhere_eq_false (h : storedElsewhere s mv flag = false) :
    ∃ v, mv.flag flag = some v ∧ ¬(s.flagPush.lookup (mv.messageRowId, flag) = some v ∨
      s.given.lookup (mv.messageRowId, flag) = some v) := by
  obtain ⟨v, hv, hno⟩ := (Option.all_eq_false _ _).mp h
  exact ⟨v, hv, of_decide_eq_false hno⟩

/-- A step that does not keep what a move carries loses it. -/
theorem lost_of_step (hinv : Inv s) (h : FlagsKept s) (hg : keepsFlag s flag l = false)
    (hstep : step s l = some s') :
    ∃ r v, s'.accepted.lookup (r, flag) = some v ∧ ¬FlagHeld s' r flag v := by
  have hch := hinv.chained
  cases l with
  | settle n newUid folder store now =>
    obtain ⟨mv, hmv, hg⟩ := (Option.all_eq_false _ _).mp hg
    simp only [decide_eq_false_iff_not, not_or, Bool.not_eq_true] at hg
    obtain ⟨hnext, helse, hend⟩ := hg
    obtain ⟨value, hf, helse⟩ := storedElsewhere_eq_false helse
    simp only [MoveQueue.step, settle, Option.ite_none_right_eq_some, Option.map_eq_some_iff,
      Prod.exists] at hstep
    obtain ⟨⟨hheld, hu⟩, out, db, he, rfl⟩ := hstep
    obtain ⟨c, hl⟩ := h mv.messageRowId
    rcases hinv.starts hheld hmv hl.at' with rfl | ⟨k, kv, rfl⟩
    · obtain ⟨hw, hop, -, hrow⟩ := hl.at'.settle_one hch hu he
      have hidle : ∀ n mv, (n, mv) ∈ Chain.idle.moves → mv.flag flag = none :=
        fun _ _ hmem => (Chain.mem_idle.mp hmem).elim
      split
      · next hsome =>
        obtain rfl : store = .cutOff := not_not.mp fun hstore => hend ⟨hstore, hrow.mp hsome⟩
        exact hl.lost hf hw.at' hidle ⟨rfl, rfl, rfl⟩ helse
      · exact hl.lost hf hw.at' hidle ⟨rfl, rfl, rfl⟩ helse
    · simp [(hl.at'.follower hch).2 rfl] at hnext
  | revert n now =>
    obtain ⟨mv, hmv, hg⟩ := (Option.all_eq_false _ _).mp hg
    obtain ⟨⟨k, kv⟩, hk, hg⟩ := (Option.all_eq_false _ _).mp hg
    simp only [decide_eq_false_iff_not, not_or, Bool.not_eq_true, Option.isSome_eq_false_iff,
      Option.isNone_iff_eq_none] at hg
    obtain ⟨hnone, helse⟩ := hg
    obtain ⟨value, hf, helse⟩ := storedElsewhere_eq_false helse
    simp only [MoveQueue.step, revert, Option.ite_none_right_eq_some, Option.map_eq_some_iff,
      Prod.exists] at hstep
    obtain ⟨hheld, out, db, he, rfl⟩ := hstep
    obtain ⟨c, hl⟩ := h mv.messageRowId
    rcases hinv.starts hheld hmv hl.at' with rfl | ⟨k', kv', rfl⟩
    · cases ((hl.at'.follower hch).1 rfl).symm.trans hk
    · cases ((hl.at'.follower hch).2 rfl).symm.trans hk
      obtain ⟨hw, -, -, hrow⟩ := hl.at'.revert_two hch he
      have hcarried : (Chain.two n mv k kv).flag flag = some value := by
        rw [Chain.flag, hnone]
        exact hf
      rw [hrow]
      refine hl.lost hcarried hw.at' (fun j jv hmem => ?_) ⟨rfl, rfl, rfl⟩ helse
      simp only [Chain.mem_one, Prod.mk.injEq] at hmem
      rw [hmem.2, Move.flag_restart]
      exact hnone
  | _ => cases hg

/-- **The runs that lose no flag** are those whose steps keep what moves carry. -/
theorem lossless_iff : system.ReachesUnder (fun s l => ∀ s', system.step s l = some s' →
      ∀ r flag v, s'.accepted.lookup (r, flag) = some v → FlagHeld s' r flag v) s ↔
    system.ReachesUnder (fun s l => keepsFlags s l = true) s := by
  refine flagsKept.reachesUnder_iff (P := fun s => ∀ r flag v,
    s.accepted.lookup (r, flag) = some v → FlagHeld s r flag v)
    (fun s h r flag v => h.2.flagHeld) fun s l s' h hg hs hheld => ?_
  obtain ⟨flag, hflag⟩ := not_forall.mp (mt keepsFlags_iff.mpr hg)
  obtain ⟨r, v, ha, hlost⟩ := lost_of_step h.1 h.2 (Bool.eq_false_of_not_eq_true hflag) hs
  exact hlost (hheld r flag v ha)

/-- A letter marked read while its first move is on its way, which is moved on and reverted. -/
theorem not_deferred_flag_kept : ¬∀ s, system.Reachable s → ∀ r flag value,
    s.accepted.lookup (r, flag) = some value → FlagHeld s r flag value := by
  have htrace : (system.exec TransitionSystem.anyStep
      (.ofRows [(7, { account := 1, folder := "INBOX", uid := 40, messageId := some "<a@b>" })])
      [.enqueueRows 1 [7] { dest := "Work" } 10, .claim [1] 11, .markSent [1] 11,
        .deferFlags [7] .seen true, .followPending 1 7 { dest := "Done" } 12, .revert 1 13]).any
      (fun s => s.accepted.lookup (7, .seen) = some true ∧
        (s.db.moves.select fun _ mv => mv.flag .seen = some true) = [] ∧
        s.flagPush.lookup (7, .seen) = none ∧ s.given.lookup (7, .seen) = none) = true := by
    decide
  obtain ⟨s, hs, hp⟩ := TransitionSystem.reaches_of_exec (Initial.ofRows (by simp)) htrace
  obtain ⟨ha, hmoves, hpush, hgiven⟩ := of_decide_eq_true hp
  intro h
  rcases h s hs 7 .seen true ha with ⟨n, mv, hn, -, hf⟩ | hq | hq
  · have hmem : (n, mv) ∈ s.db.moves.select fun _ mv => mv.flag .seen = some true :=
      Table.mem_select.mpr ⟨hn, decide_eq_true hf⟩
    rw [hmoves] at hmem
    cases hmem
  · rw [hpush] at hq
    cases hq
  · rw [hgiven] at hq
    cases hq

end MailExpert.MoveQueue
