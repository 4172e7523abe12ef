import MailExpert.Addresses.Locks

/-!
# Addresses come back by approval only

At each statement a transaction holds the locks of the addresses that it is about (`Tx.At`); the condition is on the one place where
it may not, the row that `lockTargetUser` finds (`Tx.steady`).
-/

namespace MailExpert.Addresses

open AccessSync (User UserTable normalizeEmail)

variable {toLowerCase : String → String} {settings : Settings} {db db' : Db} {t t' u : Tx} {others : List Tx} {pick : Pick}
  {a b : String} {id : UserId} {user current : User} {named : Option User} {op : Op} {patch : Patch} {users : UserTable}
  {s s' : State}

/-- The addresses that an action locks, of the row it named. -/
def Op.needs (toLowerCase : String → String) (op : Op) (named : Option User) : List String :=
  match op with
  | .updateUser _ patch => if patch.email.isSome then (named.bind (addressOf toLowerCase)).toList ++ patch.email.join.toList else []
  | .deleteUser _ => (named.bind (addressOf toLowerCase)).toList
  | op => op.address.toList

/-- The row that an administrator's action is about. -/
def Op.target : Op → Option UserId
  | .updateUser id _ | .deleteUser id => some id
  | _ => none

/-- What keeps an action on the address `a` from bringing a removed one back. -/
def Op.Admits (settings : Settings) (op : Op) (db : Db) (t : Tx) (a : String) : Prop :=
  op = .createUser a ∨ t.approved = some a ∨ a ∈ settings.bootstrapAdminEmails ∨ a ∉ db.tombstones

/-- An action under the lock of its address, before it writes a row. -/
structure Claiming (settings : Settings) (db : Db) (t : Tx) : Prop where
  row : t.row = none
  write : t.write = none
  add : t.add = none
  removed : t.removed = none
  shed : t.shed = none
  approved : ∀ a, t.approved = some a → t.op.address = some a
  locked : ∀ a, t.op.address = some a → a ∈ t.locks ∧ t.op.Admits settings db t a

/-- An administrator's action that has locked its row. -/
structure Holding (db : Db) (t : Tx) (current : User) : Prop where
  row : t.row = t.op.target
  lookup : ∀ id, t.row = some id → db.users.lookup id = some current
  some : t.row.isSome = true

/-- What holds at a statement. -/
def Tx.At (toLowerCase : String → String) (settings : Settings) (db : Db) (t : Tx) : Prop :=
  match t.pc with
  | .known | .named => Fresh t
  | .lock todo named => Fresh t ∧ ∀ a ∈ t.op.needs toLowerCase named, a ∈ t.locks ∨ a ∈ todo
  | .guard named | .target named => Fresh t ∧ ∀ a ∈ t.op.needs toLowerCase named, a ∈ t.locks
  | .allow | .tombstoned => Fresh t ∧ ∀ a, t.op.address = some a → a ∈ t.locks
  | .taken current | .clear current => Holding db t current ∧ t.write = none ∧ t.clear = none ∧ t.add = none ∧ t.approved = none ∧
      t.removed = none ∧ t.shed = none ∧ ∀ id patch, t.op = .updateUser id patch → (∀ a, patch.email.join = some a → a ∈ t.locks) ∧
        (patch.emailChanged current = true → ∀ a, current.email = some a → a ∈ t.locks)
  | .add current => Holding db t current ∧ t.write = none ∧ t.add = none ∧ t.removed = none ∧ t.shed = none ∧
      ∀ id patch, t.op = .updateUser id patch →
        (patch.emailChanged current = true → t.approved = patch.email.join ∧ ∀ a, current.email = some a → a ∈ t.locks)
  | .update current => Holding db t current ∧ t.write = none ∧ t.shed = none ∧ t.removed = t.add ∧
      ∀ id patch, t.op = .updateUser id patch →
        (patch.emailChanged current = true → t.approved = patch.email.join) ∧ (patch.emailChanged current = false → t.add = none)
  | .delete current named => Holding db t current ∧ Fresh { t with row := none } ∧ t.op.target.isSome = true ∧
      named.bind (addressOf toLowerCase) = addressOf toLowerCase current ∧ ∀ a, addressOf toLowerCase current = some a → a ∈ t.locks
  | .bury current named => Holding db t current ∧ t.write = some none ∧ t.add = none ∧ t.clear = none ∧ t.approved = none ∧
      t.removed = current.email ∧ t.shed = (if current.email.isNone then addressOf toLowerCase current else none) ∧
      t.op.target.isSome = true ∧ named.bind (addressOf toLowerCase) = addressOf toLowerCase current ∧
      ∀ a, addressOf toLowerCase current = some a → a ∈ t.locks
  | .find _ | .claim _ | .claimRow _ _ | .insert _ => Claiming settings db t
  | .settle _ id user arrived => t.add = none ∧ t.removed = none ∧ t.shed = none ∧ (∀ a, t.approved = some a → t.op.address = some a) ∧
      (∀ a, t.op.address = some a → a ∈ t.locks ∧ t.op.Admits settings db t a) ∧
      if arrived then t.row = some id ∧ t.write = some (some user) else t.row = none ∧ t.write = none
  | .commit => Complete t

theorem Op.Admits.keeps (hk : Keeps db db' t) (hlock : a ∈ t.locks) (h : op.Admits settings db t a) : op.Admits settings db' t a := by
  rcases h with hop | happroved | hboot | htomb
  · exact .inl hop
  · exact .inr (.inl happroved)
  · exact .inr (.inr (.inl hboot))
  · exact .inr (.inr (.inr (hk.tombstones a hlock htomb)))

theorem Holding.keeps (h : Holding db t current) (hk : Keeps db db' t) : Holding db' t current where
  row := h.row
  lookup id hrow := (hk.row id hrow).trans (h.lookup id hrow)
  some := h.some

theorem Claiming.keeps (h : Claiming settings db t) (hk : Keeps db db' t) : Claiming settings db' t where
  row := h.row
  write := h.write
  add := h.add
  removed := h.removed
  shed := h.shed
  approved := h.approved
  locked a ha := ⟨(h.locked a ha).1, (h.locked a ha).2.keeps hk (h.locked a ha).1⟩

theorem Tx.At.keeps (h : t.At toLowerCase settings db) (hk : Keeps db db' t) : t.At toLowerCase settings db' := by
  unfold Tx.At at h ⊢
  split at h
  case h_8 | h_9 | h_10 | h_11 | h_12 | h_13 => exact ⟨h.1.keeps hk, h.2⟩
  case h_14 | h_15 | h_16 | h_17 => exact h.keeps hk
  case h_18 =>
    obtain ⟨hadd, hremoved, hshed, happroved, hlocked, harrived⟩ := h
    exact ⟨hadd, hremoved, hshed, happroved, fun a ha => ⟨(hlocked a ha).1, (hlocked a ha).2.keeps hk (hlocked a ha).1⟩, harrived⟩
  all_goals exact h

/-! ## One statement -/

/-- What a statement leaves: the transaction, beside the other open ones. -/
structure Next (toLowerCase : String → String) (settings : Settings) (db : Db) (others : List Tx) (t : Tx) : Prop where
  sound : Sound settings db t
  at_ : t.At toLowerCase settings db
  apart : ∀ u ∈ others, Apart t u

/-- The row that an administrator's action finds under its lock has the address that was read before the locks: the one that is
about to be buried is locked. -/
def Tx.steady (toLowerCase : String → String) (db : Db) (t : Tx) : Bool :=
  match t.pc, t.op with
  | .target named, .updateUser id patch => (db.users.lookup id).all fun current =>
      !patch.emailChanged current || current.email.isNone || current.email = named.bind (addressOf toLowerCase)
  | .target named, .deleteUser id => (db.users.lookup id).all fun current =>
      addressOf toLowerCase current = named.bind (addressOf toLowerCase)
  | _, _ => true

/-- A step that takes locks and reads. -/
theorem Sound.read (h : Sound settings db t) {pc : Pc} {locks : List String} {guard : Bool} (hlocks : ∀ a ∈ t.locks, a ∈ locks) :
    Sound settings db { t with pc, locks, guard } where
  write := h.write
  clear := h.clear
  add a ha := ⟨hlocks a (h.add a ha).1, (h.add a ha).2⟩
  approved a ha := by
    obtain ⟨hclear, hr, hs, hlock⟩ := h.approved a ha
    exact ⟨hclear, hr, hs, hlocks a hlock⟩
  removed := h.removed
  email a ha := ⟨(h.email a ha).1, (h.email a ha).2.imp_right fun hnew => ⟨hlocks a hnew.1, hnew.2⟩⟩

theorem Next.read {pc : Pc} (hs : Sound settings db t) (hapart : ∀ u ∈ others, Apart t u)
    (hat : Tx.At toLowerCase settings db { t with pc }) : Next toLowerCase settings db others { t with pc } where
  sound := hs.read fun _ ha => ha
  at_ := hat
  apart u hu := ⟨(hapart u hu).locks, (hapart u hu).row, (hapart u hu).email⟩

/-- What a statement is run with. -/
structure Ready (toLowerCase : String → String) (settings : Settings) (db : Db) (others : List Tx) (t : Tx) : Prop
    extends Next toLowerCase settings db others t where
  unique : Unique db.users
  others : ∀ u ∈ others, Sound settings db u
  steady : t.steady toLowerCase db = true

theorem mem_addresses {extra : List String} : a ∈ addresses toLowerCase named extra ↔
    named.bind (addressOf toLowerCase) = some a ∨ a ∈ extra := by
  rw [addresses, List.mem_insertionSort, List.mem_dedup, List.mem_append, Option.mem_toList]

theorem run_known (h : Ready toLowerCase settings db others t) (hpc : t.pc = .known)
    (hrun : t.run toLowerCase settings db others .next = some (some t')) : Next toLowerCase settings db others t' := by
  have hat : Fresh t := by
    have := h.at_
    rwa [Tx.At, hpc] at this
  simp only [Tx.run, hpc] at hrun
  split at hrun
  next address cloudflare hop =>
    have hlock : Next toLowerCase settings db others { t with pc := .lock [address] none } := by
      refine .read h.sound h.apart ⟨⟨hat.row, hat.write, hat.clear, hat.add, hat.approved, hat.removed, hat.shed⟩, fun a ha => ?_⟩
      simp only [Op.needs, hop, Op.address] at ha
      exact .inr ha
    have hrun := Option.some.inj hrun
    split at hrun
    · split at hrun
      · cases hrun
      · cases hrun
        exact hlock
    · split at hrun
      · cases hrun
      · cases hrun
        exact hlock
  next => cases hrun

theorem run_named (h : Ready toLowerCase settings db others t) (hpc : t.pc = .named)
    (hrun : t.run toLowerCase settings db others .next = some (some t')) : Next toLowerCase settings db others t' := by
  have hat : Fresh t := by
    have := h.at_
    rwa [Tx.At, hpc] at this
  simp only [Tx.run, hpc] at hrun
  split at hrun
  next id patch hop =>
    cases hrun
    refine .read h.sound h.apart ⟨⟨hat.row, hat.write, hat.clear, hat.add, hat.approved, hat.removed, hat.shed⟩, fun a ha => ?_⟩
    refine .inr (mem_addresses.mpr ?_)
    simp only [Op.needs, hop] at ha
    split at ha
    · exact (List.mem_append.mp ha).imp_left Option.mem_toList.mp
    · cases ha
  next id hop =>
    cases hrun
    refine .read h.sound h.apart ⟨⟨hat.row, hat.write, hat.clear, hat.add, hat.approved, hat.removed, hat.shed⟩, fun a ha => ?_⟩
    simp only [Op.needs, hop] at ha
    exact .inr (mem_addresses.mpr (.inl (Option.mem_toList.mp ha)))
  next => cases hrun

theorem run_lock {todo : List String} (h : Ready toLowerCase settings db others t) (hpc : t.pc = .lock todo named)
    (hrun : t.run toLowerCase settings db others .next = some (some t')) : Next toLowerCase settings db others t' := by
  have hat := h.at_
  rw [Tx.At, hpc] at hat
  obtain ⟨hf, hneeds⟩ := hat
  cases todo with
  | nil =>
    simp only [Tx.run, hpc] at hrun
    cases hrun
    have hlocks (a : String) (ha : a ∈ t.op.needs toLowerCase named) : a ∈ t.locks :=
      (hneeds a ha).resolve_right List.not_mem_nil
    have hfresh : Fresh { t with pc := t.op.locked settings named } :=
      ⟨hf.row, hf.write, hf.clear, hf.add, hf.approved, hf.removed, hf.shed⟩
    have haddress (a : String) (ha : t.op.address = some a) : a ∈ t.locks := by
      refine hlocks a ?_
      cases hop : t.op <;> rw [hop] at ha <;> first | (cases ha; done) | (cases ha; exact List.mem_singleton_self _)
    refine .read h.sound h.apart ?_
    have hclaim (hadmits : ∀ a, t.op.address = some a → t.op.Admits settings db { t with pc := t.op.locked settings named } a) :
        Claiming settings db { t with pc := t.op.locked settings named } :=
      ⟨hf.row, hf.write, hf.add, hf.removed, hf.shed, fun a ha => (by cases hf.approved.symm.trans ha),
        fun a ha => ⟨haddress a ha, hadmits a ha⟩⟩
    unfold Tx.At
    cases hop : t.op with
    | createUser email =>
      rw [hop] at hfresh hclaim
      simp only [Op.locked]
      refine hclaim fun a ha => .inl ?_
      exact congrArg Op.createUser (Option.some.inj ha)
    | allowEmail email =>
      simp only [Op.locked]
      rw [hop] at hfresh haddress
      exact ⟨hfresh, haddress⟩
    | updateUser id patch =>
      simp only [Op.locked]
      rw [hop] at hfresh hlocks
      exact ⟨hfresh, hlocks⟩
    | deleteUser id =>
      simp only [Op.locked]
      rw [hop] at hfresh hlocks
      exact ⟨hfresh, hlocks⟩
    | resolveVerifiedUser address cloudflare =>
      rw [hop] at hfresh hclaim haddress
      rw [Op.locked] at hfresh hclaim ⊢
      split at hfresh
      next hboot =>
        rw [if_pos hboot] at hclaim ⊢
        refine hclaim fun a ha => .inr (.inr (.inl ?_))
        cases ha
        exact List.contains_iff_mem.mp hboot
      next hboot =>
        rw [if_neg hboot]
        exact ⟨hfresh, haddress⟩
    | importUser email =>
      simp only [Op.locked]
      rw [hop] at hfresh haddress
      exact ⟨hfresh, haddress⟩
  | cons a todo =>
    simp only [Tx.run, hpc] at hrun
    split at hrun
    · cases hrun
    next hfree =>
    cases hrun
    rw [List.any_eq_true] at hfree
    refine ⟨h.sound.read fun _ => List.mem_cons_of_mem _, ⟨⟨hf.row, hf.write, hf.clear, hf.add, hf.approved, hf.removed, hf.shed⟩,
      fun b hb => ?_⟩, fun u hu => ⟨fun b hb => ?_, (h.apart u hu).row, (h.apart u hu).email⟩⟩
    · rcases hneeds b hb with hold | htodo
      · exact .inl (List.mem_cons_of_mem _ hold)
      · rcases List.mem_cons.mp htodo with rfl | htodo
        · exact .inl List.mem_cons_self
        · exact .inr htodo
    · rcases List.mem_cons.mp hb with rfl | hb
      · exact fun hin => hfree ⟨u, hu, List.contains_iff_mem.mpr hin⟩
      · exact (h.apart u hu).locks b hb

theorem run_guard (h : Ready toLowerCase settings db others t) (hpc : t.pc = .guard named)
    (hrun : t.run toLowerCase settings db others .next = some (some t')) : Next toLowerCase settings db others t' := by
  have hat := h.at_
  rw [Tx.At, hpc] at hat
  obtain ⟨hf, hneeds⟩ := hat
  simp only [Tx.run, hpc] at hrun
  split at hrun
  · cases hrun
  · cases hrun
    exact ⟨h.sound.read fun _ ha => ha, ⟨⟨hf.row, hf.write, hf.clear, hf.add, hf.approved, hf.removed, hf.shed⟩, hneeds⟩,
      fun u hu => ⟨(h.apart u hu).locks, (h.apart u hu).row, (h.apart u hu).email⟩⟩

/-- A row is locked that no other transaction holds. -/
theorem Next.hold {pc : Pc} (hs : Sound settings db t) (hapart : ∀ u ∈ others, Apart t u) (hwrite : t.write = none)
    (hremoved : t.removed = none) (hfree : ¬(others.any fun o => o.row = some id) = true)
    (hat : Tx.At toLowerCase settings db { t with row := some id, pc }) : Next toLowerCase settings db others { t with row := some id, pc } where
  sound := {
    write := fun _ => rfl
    clear := hs.clear
    add := hs.add
    approved := hs.approved
    removed := fun a ha => by
      have ha : t.removed = some a := ha
      rw [hremoved] at ha
      cases ha
    email := fun a ha => by
      have ha : t.email = some a := ha
      rw [Tx.email, hwrite] at ha
      cases ha }
  at_ := hat
  apart u hu := {
    locks := (hapart u hu).locks
    row := fun id' hid' hrow => by
      cases hid'
      exact hfree (List.any_eq_true.mpr ⟨u, hu, decide_eq_true hrow⟩)
    email := (hapart u hu).email }

theorem run_target (h : Ready toLowerCase settings db others t) (hpc : t.pc = .target named)
    (hrun : t.run toLowerCase settings db others .next = some (some t')) : Next toLowerCase settings db others t' := by
  have hat := h.at_
  rw [Tx.At, hpc] at hat
  obtain ⟨hf, hneeds⟩ := hat
  have hsteady := h.steady
  simp only [Tx.run, hpc] at hrun
  split at hrun
  next id patch hop =>
    split at hrun
    · cases hrun
    next hfree =>
    split at hrun
    · cases hrun
    next current hid =>
    split at hrun
    · cases hrun
    cases hrun
    simp only [Tx.steady, hpc, hop, hid, Option.all_some, Bool.or_eq_true, Bool.not_eq_true', decide_eq_true_eq] at hsteady
    refine .hold h.sound h.apart hf.write hf.removed hfree ⟨⟨?_, ?_, rfl⟩, hf.write, hf.clear, hf.add, hf.approved, hf.removed, hf.shed, ?_⟩
    · exact congrArg Op.target hop.symm
    · intro id' hid'
      cases hid'
      exact hid
    · intro id' patch' hop'
      obtain ⟨rfl, rfl⟩ := Op.updateUser.inj (hop.symm.trans hop')
      simp only [Op.needs, hop] at hneeds
      refine ⟨fun a ha => ?_, fun hchanged a ha => ?_⟩
      · have hgiven : patch.email.isSome = true := by
          cases hemail : patch.email with
          | none => rw [hemail] at ha; cases ha
          | some => rfl
        rw [if_pos hgiven] at hneeds
        exact hneeds a (List.mem_append_right _ (Option.mem_toList.mpr ha))
      · have hgiven : patch.email.isSome = true := by
          rw [Patch.emailChanged, Bool.and_eq_true] at hchanged
          exact hchanged.1
        rw [if_pos hgiven] at hneeds
        rcases hsteady with (hnot | hnone) | hsame
        · rw [hnot] at hchanged
          cases hchanged
        · rw [ha] at hnone
          cases hnone
        · exact hneeds a (List.mem_append_left _ (Option.mem_toList.mpr (hsame ▸ ha)))
  next id hop =>
    split at hrun
    · cases hrun
    next hfree =>
    split at hrun
    · cases hrun
    next current hid =>
    split at hrun
    · cases hrun
    cases hrun
    simp only [Tx.steady, hpc, hop, hid, Option.all_some, decide_eq_true_eq] at hsteady
    refine .hold h.sound h.apart hf.write hf.removed hfree ⟨⟨?_, ?_, rfl⟩, ?_, ?_, hsteady.symm, fun a ha => ?_⟩
    · exact congrArg Op.target hop.symm
    · intro id' hid'
      cases hid'
      exact hid
    · exact ⟨rfl, hf.write, hf.clear, hf.add, hf.approved, hf.removed, hf.shed⟩
    · exact congrArg (fun op => op.target.isSome) hop
    · simp only [Op.needs, hop] at hneeds
      exact hneeds a (Option.mem_toList.mpr (hsteady ▸ ha))
  next => cases hrun

/-! ### `updateUser` and `deleteUser`, of the row they hold -/

theorem Holding.next {pc : Pc} {write : Option (Option User)} {clear add approved removed shed : Option String}
    (h : Holding db t current) : Holding db { t with pc, write, clear, add, approved, removed, shed } current where
  row := h.row
  lookup := h.lookup
  some := h.some

theorem run_taken (h : Ready toLowerCase settings db others t) (hpc : t.pc = .taken current)
    (hrun : t.run toLowerCase settings db others .next = some (some t')) : Next toLowerCase settings db others t' := by
  have hat := h.at_
  rw [Tx.At, hpc] at hat
  have hnext : Next toLowerCase settings db others { t with pc := .clear current } :=
    .read h.sound h.apart ⟨hat.1.next, hat.2⟩
  simp only [Tx.run, hpc] at hrun
  split at hrun
  · split at hrun
    · split at hrun
      · cases hrun
      · cases hrun
        exact hnext
    · cases hrun
      exact hnext
  · cases hrun

/-- A row that a transaction is about, and an address that it has approved: what it writes of tombstones. -/
theorem Sound.approve (h : Sound settings db t) {pc : Pc} (hlock : a ∈ t.locks) (hremoved : t.removed ≠ some a) (hshed : t.shed ≠ some a)
    (hemail : ∀ b, t.email = some b → t.approved = some b → b = a) :
    Sound settings db { t with clear := if a ∈ db.tombstones then some a else none, approved := some a, pc } where
  write := h.write
  clear b hb := by
    have hb : (if a ∈ db.tombstones then some a else none) = some b := hb
    split at hb
    · exact hb
    · cases hb
  add := h.add
  approved b hb := by
    obtain rfl : a = b := Option.some.inj hb
    refine ⟨?_, hremoved, hshed, hlock⟩
    show (if a ∈ db.tombstones then some a else none) = some a ∨ a ∉ db.tombstones
    by_cases hmem : a ∈ db.tombstones
    · exact .inl (if_pos hmem)
    · exact .inr hmem
  removed := h.removed
  email b hb := by
    obtain ⟨hown, hnew⟩ := h.email b hb
    refine ⟨hown, hnew.imp_right fun ⟨hl, hcases⟩ => ⟨hl, ?_⟩⟩
    rcases hcases with happroved | hrest
    · exact .inl (congrArg some (hemail b hb happroved).symm)
    · exact .inr hrest

theorem run_clear (h : Ready toLowerCase settings db others t) (hpc : t.pc = .clear current)
    (hrun : t.run toLowerCase settings db others .next = some (some t')) : Next toLowerCase settings db others t' := by
  have hat := h.at_
  rw [Tx.At, hpc] at hat
  obtain ⟨hhold, hwrite, -, hadd, happroved, hremoved, hshed, hneeds⟩ := hat
  simp only [Tx.run, hpc] at hrun
  split at hrun
  next id patch hop =>
    obtain ⟨hgiven, hold⟩ := hneeds id patch hop
    have hread (hnot : patch.emailChanged current = true → patch.email.join = none) :
        Next toLowerCase settings db others { t with pc := .add current } := by
      refine .read h.sound h.apart ⟨hhold.next, hwrite, hadd, hremoved, hshed, fun id' patch' hop' hchanged => ?_⟩
      obtain ⟨rfl, rfl⟩ := Op.updateUser.inj (hop.symm.trans hop')
      exact ⟨happroved.trans (hnot hchanged).symm, hold hchanged⟩
    split at hrun
    next email hemail =>
      split at hrun
      next hnot =>
        cases hrun
        refine hread fun hchanged => ?_
        rw [hchanged] at hnot
        cases hnot
      next hchanged =>
        split at hrun
        · cases hrun
        cases hrun
        refine ⟨h.sound.approve (hgiven email hemail) (by simp [hremoved]) (by simp [hshed]) (by simp [happroved]),
          ⟨hhold.next, hwrite, hadd, hremoved, hshed, fun id' patch' hop' hch => ?_⟩,
          fun u hu => ⟨(h.apart u hu).locks, (h.apart u hu).row, (h.apart u hu).email⟩⟩
        obtain ⟨rfl, rfl⟩ := Op.updateUser.inj (hop.symm.trans hop')
        exact ⟨hemail.symm, hold hch⟩
    next hnone =>
      cases hrun
      exact hread fun _ => hnone
  next => cases hrun

theorem run_add (h : Ready toLowerCase settings db others t) (hpc : t.pc = .add current)
    (hrun : t.run toLowerCase settings db others .next = some (some t')) : Next toLowerCase settings db others t' := by
  have hat := h.at_
  rw [Tx.At, hpc] at hat
  obtain ⟨hhold, hwrite, hadd, hremoved, hshed, hneeds⟩ := hat
  simp only [Tx.run, hpc] at hrun
  split at hrun
  next id patch hop =>
    have hread : Next toLowerCase settings db others { t with pc := .update current } := by
      refine .read h.sound h.apart ⟨hhold.next, hwrite, hshed, hremoved.trans hadd.symm, fun id' patch' hop' => ⟨fun hchanged => ?_, fun _ => hadd⟩⟩
      exact (hneeds id' patch' hop' hchanged).1
    split at hrun
    next email hemail =>
      split at hrun
      · cases hrun
        exact hread
      next hchanged =>
        split at hrun
        · cases hrun
        cases hrun
        rw [Bool.not_eq_true, Bool.not_eq_false'] at hchanged
        obtain ⟨happroved, hlock⟩ := hneeds id patch hop hchanged
        have hne : t.approved ≠ some email := by
          rw [happroved]
          intro heq
          rw [Patch.emailChanged, Bool.and_eq_true, decide_eq_true_eq] at hchanged
          refine hchanged.2 ?_
          rw [Patch.after, hemail]
          cases hp : patch.email with
          | none => rw [hp] at heq; cases heq
          | some o => rw [hp] at heq; exact heq
        obtain ⟨id', hid'⟩ := Option.isSome_iff_exists.mp hhold.some
        refine ⟨⟨h.sound.write, h.sound.clear, fun a ha => ?_, fun a ha => ?_, fun a ha => ?_, h.sound.email⟩,
          ⟨hhold.next, hwrite, hshed, rfl, fun id'' patch' hop' => ?_⟩,
          fun u hu => ⟨(h.apart u hu).locks, (h.apart u hu).row, (h.apart u hu).email⟩⟩
        · obtain rfl : email = a := Option.some.inj ha
          exact ⟨hlock email hemail, .inl rfl⟩
        · obtain ⟨hcl, -, hs, hl⟩ := h.sound.approved a ha
          refine ⟨hcl, fun heq => ?_, hs, hl⟩
          obtain rfl : email = a := Option.some.inj heq
          exact hne ha
        · obtain rfl : email = a := Option.some.inj ha
          refine ⟨?_, id', current, hid', hhold.lookup id' hid', hemail⟩
          show t.email ≠ some email
          rw [Tx.email, hwrite]
          exact fun h => by cases h
        · obtain ⟨rfl, rfl⟩ := Op.updateUser.inj (hop.symm.trans hop')
          refine ⟨fun _ => happroved, fun hnot => ?_⟩
          rw [hchanged] at hnot
          cases hnot
    next =>
      cases hrun
      exact hread
  next => cases hrun

theorem Patch.after_email (h : patch.emailChanged current = true) : (patch.after current).email = patch.email.join := by
  rw [Patch.emailChanged, Bool.and_eq_true] at h
  obtain ⟨o, ho⟩ := Option.isSome_iff_exists.mp h.1
  rw [Patch.after, ho]
  rfl

theorem Patch.after_email_of_not (h : patch.emailChanged current = false) : (patch.after current).email = current.email := by
  rw [Patch.emailChanged] at h
  cases ho : patch.email with
  | none => rw [Patch.after, ho]; rfl
  | some o =>
    rw [ho, Option.isSome_some, Bool.true_and, decide_eq_false_iff_not, not_not] at h
    exact h

theorem run_update (h : Ready toLowerCase settings db others t) (hpc : t.pc = .update current)
    (hrun : t.run toLowerCase settings db others .next = some (some t')) : Next toLowerCase settings db others t' := by
  have hat := h.at_
  rw [Tx.At, hpc] at hat
  obtain ⟨hhold, hwrite, hshed, hremoved, hneeds⟩ := hat
  simp only [Tx.run, hpc] at hrun
  split at hrun
  next id patch hop =>
    obtain ⟨happroved, hnot⟩ := hneeds id patch hop
    have hrow : t.row = some id := hhold.row.trans (congrArg Op.target hop)
    split at hrun
    · cases hrun
    next hothers =>
    split at hrun
    · cases hrun
    next hfree =>
    cases hrun
    refine ⟨⟨fun _ => by rw [hrow]; rfl, h.sound.clear, h.sound.add, h.sound.approved, fun a ha => ⟨?_, (h.sound.removed a ha).2⟩, fun a ha => ⟨?_, ?_⟩⟩,
      ⟨fun a ha => ?_, fun a ha => ⟨hremoved ▸ ha, rfl⟩, fun a ha => ?_⟩,
      fun u hu => ⟨(h.apart u hu).locks, (h.apart u hu).row, fun a ha => ?_⟩⟩
    · -- a removed email is the one that the row had
      intro heq
      have heq : (patch.after current).email = some a := heq
      obtain ⟨-, id', user, hrow', hid', hemail⟩ := h.sound.removed a ha
      obtain rfl := Option.some.inj ((hhold.lookup id' hrow').symm.trans hid')
      cases hchanged : patch.emailChanged current with
      | false =>
        rw [hremoved, hnot hchanged] at ha
        cases ha
      | true =>
        rw [Patch.emailChanged, Bool.and_eq_true, decide_eq_true_eq] at hchanged
        exact hchanged.2 (heq.trans hemail.symm)
    · intro id' user hid' hemail
      have ha : (patch.after current).email = some a := ha
      rw [hrow]
      by_contra hne
      refine hfree ?_
      rw [ha, Option.any_some, decide_eq_true_eq]
      intro hnone
      have hmem : (id', user) ∈ db.users.select fun k row => row.email = some a && k ≠ id := by
        rw [Table.mem_select]
        exact ⟨hid', by simpa [hemail] using fun h => hne (congrArg some h.symm)⟩
      rw [hnone] at hmem
      exact List.not_mem_nil hmem
    · have ha : (patch.after current).email = some a := ha
      cases hchanged : patch.emailChanged current with
      | false => exact .inl ⟨id, current, hrow, hhold.lookup id hrow, (Patch.after_email_of_not hchanged).symm.trans ha⟩
      | true =>
        have happ : t.approved = some a := (happroved hchanged).trans ((Patch.after_email hchanged).symm.trans ha)
        exact .inr ⟨(h.sound.approved a happ).2.2.2, .inl happ⟩
    · have ha : t.op = .createUser a := ha
      rw [hop] at ha
      cases ha
    · have ha : t.shed = some a := ha
      rw [hshed] at ha
      cases ha
    · have ha : (patch.after current).email = some a := ha
      intro hua
      refine hothers ?_
      rw [ha, Option.any_some, List.any_eq_true]
      exact ⟨u, hu, decide_eq_true hua⟩
  next => cases hrun

theorem run_delete (h : Ready toLowerCase settings db others t) (hpc : t.pc = .delete current named)
    (hrun : t.run toLowerCase settings db others .next = some (some t')) : Next toLowerCase settings db others t' := by
  have hat := h.at_
  rw [Tx.At, hpc] at hat
  obtain ⟨hhold, hf, htarget, hnamed, hlock⟩ := hat
  simp only [Tx.run, hpc] at hrun
  cases hrun
  obtain ⟨id, hid⟩ := Option.isSome_iff_exists.mp hhold.some
  refine ⟨⟨fun _ => hhold.some, h.sound.clear, fun a ha => ?_, fun a ha => ?_, fun a ha => ⟨fun h => (by cases h), id, current, hid, hhold.lookup id hid, ha⟩,
    fun a ha => (by cases ha)⟩, ⟨hhold.next, rfl, hf.add, hf.clear, hf.approved, rfl, rfl, htarget, hnamed, hlock⟩,
    fun u hu => ⟨(h.apart u hu).locks, (h.apart u hu).row, fun a ha => (by cases ha)⟩⟩
  · have ha : t.add = some a := ha
    rw [show t.add = none from hf.add] at ha
    cases ha
  · have ha : t.approved = some a := ha
    rw [show t.approved = none from hf.approved] at ha
    cases ha

theorem run_bury (h : Ready toLowerCase settings db others t) (hpc : t.pc = .bury current named)
    (hrun : t.run toLowerCase settings db others .next = some (some t')) : Next toLowerCase settings db others t' := by
  have hat := h.at_
  rw [Tx.At, hpc] at hat
  obtain ⟨hhold, hwrite, hadd, hclear, happroved, hremoved, hshed, htarget, hnamed, hlock⟩ := hat
  have haddress : (current.email <|> named.bind (addressOf toLowerCase)) = addressOf toLowerCase current := by
    rw [hnamed]
    cases hemail : current.email with
    | none => rfl
    | some email => rw [addressOf, hemail]; rfl
  have hcreated (a : String) : t.op ≠ .createUser a := by
    intro hop
    rw [hop] at htarget
    cases htarget
  have hgone (a : String) (ha : addressOf toLowerCase current = some a) : t.removed = some a ∨ t.shed = some a := by
    rw [hremoved, hshed]
    cases hemail : current.email with
    | none => exact .inr ha
    | some email =>
      rw [addressOf, hemail] at ha
      exact .inl ha
  have hsame (a : String) (ha : t.removed = some a ∨ t.shed = some a) : addressOf toLowerCase current = some a := by
    rw [hremoved, hshed] at ha
    cases hemail : current.email with
    | none =>
      rw [hemail] at ha
      exact ha.resolve_left fun h => by cases h
    | some email =>
      rw [hemail] at ha
      rw [addressOf, hemail]
      exact ha.resolve_right fun h => by cases h
  simp only [Tx.run, hpc] at hrun
  rw [haddress] at hrun
  split at hrun
  next email hemail =>
    split at hrun
    · cases hrun
    cases hrun
    refine ⟨⟨h.sound.write, h.sound.clear, fun a ha => ?_, h.sound.approved, h.sound.removed, h.sound.email⟩,
      ⟨fun a ha => absurd ha (hcreated a), fun a ha => ⟨?_, ?_⟩, fun a ha => ?_⟩,
      fun u hu => ⟨(h.apart u hu).locks, (h.apart u hu).row, (h.apart u hu).email⟩⟩
    · obtain rfl : email = a := Option.some.inj ha
      exact ⟨hlock email hemail, hgone email hemail⟩
    · exact hemail.symm.trans (hsame a (.inl ha))
    · show t.write.isSome = true
      rw [hwrite]
      rfl
    · exact hemail.symm.trans (hsame a (.inr ha))
  next hnone =>
    cases hrun
    refine .read h.sound h.apart ⟨fun a ha => absurd ha (hcreated a), fun a ha => ?_, fun a ha => ?_⟩
    · cases hnone.symm.trans (hsame a (.inl ha))
    · cases hnone.symm.trans (hsame a (.inr ha))

/-! ### The actions on an address -/

theorem Claiming.next {pc : Pc} (h : Claiming settings db t) : Claiming settings db { t with pc } where
  row := h.row
  write := h.write
  add := h.add
  removed := h.removed
  shed := h.shed
  approved := h.approved
  locked := h.locked

theorem run_allow (h : Ready toLowerCase settings db others t) (hpc : t.pc = .allow)
    (hrun : t.run toLowerCase settings db others .next = some (some t')) : Next toLowerCase settings db others t' := by
  have hat := h.at_
  rw [Tx.At, hpc] at hat
  obtain ⟨hf, hlock⟩ := hat
  simp only [Tx.run, hpc] at hrun
  split at hrun
  next email hop =>
    split at hrun
    · cases hrun
    cases hrun
    have haddress : t.op.address = some email := congrArg Op.address hop
    refine ⟨h.sound.approve (hlock email haddress) (by simp [hf.removed]) (by simp [hf.shed]) (by simp [hf.approved]),
      ⟨hf.row, hf.write, hf.add, hf.removed, hf.shed, fun a ha => ?_, fun a ha => ⟨hlock a ha, .inr (.inl ?_)⟩⟩,
      fun u hu => ⟨(h.apart u hu).locks, (h.apart u hu).row, (h.apart u hu).email⟩⟩
    · exact haddress.trans ha
    · exact haddress.symm.trans ha
  next => cases hrun

theorem run_tombstoned (h : Ready toLowerCase settings db others t) (hpc : t.pc = .tombstoned)
    (hrun : t.run toLowerCase settings db others .next = some (some t')) : Next toLowerCase settings db others t' := by
  have hat := h.at_
  rw [Tx.At, hpc] at hat
  obtain ⟨hf, hlock⟩ := hat
  simp only [Tx.run, hpc] at hrun
  split at hrun
  next email hop =>
    have hrun := Option.some.inj hrun
    split at hrun
    · cases hrun
    next hnot =>
    cases hrun
    refine .read h.sound h.apart ⟨hf.row, hf.write, hf.add, hf.removed, hf.shed, fun a ha => ?_, fun a ha => ⟨hlock a ha, .inr (.inr (.inr ?_))⟩⟩
    · cases hf.approved.symm.trans ha
    · obtain rfl : email = a := Option.some.inj (hop.symm.trans ha)
      exact hnot
  next => cases hrun

theorem run_find {fromAccess : Bool} (h : Ready toLowerCase settings db others t) (hpc : t.pc = .find fromAccess)
    (hrun : t.run toLowerCase settings db others .next = some (some t')) : Next toLowerCase settings db others t' := by
  have hat : Claiming settings db t := by
    have := h.at_
    rwa [Tx.At, hpc] at this
  simp only [Tx.run, hpc] at hrun
  split at hrun
  · cases hrun
    refine .read h.sound h.apart ?_
    split
    · exact ⟨hat.add, hat.removed, hat.shed, hat.approved, hat.locked, hat.row, hat.write⟩
    · exact hat.next
  · cases hrun

theorem run_claim {fromAccess : Bool} (h : Ready toLowerCase settings db others t) (hpc : t.pc = .claim fromAccess)
    (hrun : t.run toLowerCase settings db others .next = some (some t')) : Next toLowerCase settings db others t' := by
  have hat : Claiming settings db t := by
    have := h.at_
    rwa [Tx.At, hpc] at this
  simp only [Tx.run, hpc] at hrun
  split at hrun
  · cases hrun
    refine .read h.sound h.apart ?_
    split <;> exact hat.next
  · cases hrun

/-- The address enters a row: one that is claimed, or a new one. -/
theorem Claiming.enter {fromAccess : Bool} (h : Ready toLowerCase settings db others t) (hc : Claiming settings db t)
    (haddress : t.op.address = some a) (hemail : user.email = some a) (hfree : ¬(others.any fun o => o.row = some id) = true)
    (hothers : ∀ u ∈ others, u.email ≠ some a)
    (hown : ∀ id' user', db.users.lookup id' = some user' → user'.email = some a → id' = id) :
    Next toLowerCase settings db others
      { t with row := some id, write := some (some user), pc := .settle fromAccess id user true } where
  sound := {
    write := fun _ => rfl
    clear := h.sound.clear
    add := h.sound.add
    approved := h.sound.approved
    removed := fun b hb => by cases hc.removed.symm.trans hb
    email := fun b hb => by
      obtain rfl : a = b := Option.some.inj (hemail.symm.trans hb)
      obtain ⟨hlock, hadmits⟩ := hc.locked a haddress
      refine ⟨fun id' user' hid' hemail' => congrArg some (hown id' user' hid' hemail').symm, .inr ⟨hlock, ?_⟩⟩
      rcases hadmits with hop | happroved | hboot | htomb
      · exact .inr (.inr (.inr hop))
      · exact .inl happroved
      · exact .inr (.inl hboot)
      · exact .inr (.inr (.inl htomb)) }
  at_ := ⟨hc.add, hc.removed, hc.shed, hc.approved, hc.locked, rfl, rfl⟩
  apart u hu := {
    locks := (h.apart u hu).locks
    row := fun id' hid' hrow => by
      cases hid'
      exact hfree (List.any_eq_true.mpr ⟨u, hu, decide_eq_true hrow⟩)
    email := fun b hb => by
      obtain rfl : a = b := Option.some.inj (hemail.symm.trans hb)
      exact hothers u hu }

theorem run_claimRow {fromAccess : Bool} (h : Ready toLowerCase settings db others t) (hpc : t.pc = .claimRow fromAccess id)
    (hrun : t.run toLowerCase settings db others .next = some (some t')) : Next toLowerCase settings db others t' := by
  have hat : Claiming settings db t := by
    have := h.at_
    rwa [Tx.At, hpc] at this
  simp only [Tx.run, hpc] at hrun
  split at hrun
  next email haddress =>
    split at hrun
    · cases hrun
    next hfree =>
    split at hrun
    · cases hrun
      exact .read h.sound h.apart hat.next
    next user hid =>
    split at hrun
    · cases hrun
    next hothers =>
    split at hrun
    · cases hrun
    next hnone =>
    cases hrun
    refine hat.enter h haddress rfl hfree (fun u hu heq => hothers (List.any_eq_true.mpr ⟨u, hu, decide_eq_true heq⟩)) fun id' user' hid' hemail => ?_
    by_contra hne
    rw [not_not] at hnone
    have hmem : (id', user') ∈ db.users.select fun k row => row.email = some email && k ≠ id := by
      rw [Table.mem_select]
      exact ⟨hid', by simpa [hemail] using hne⟩
    rw [hnone] at hmem
    exact List.not_mem_nil hmem
  next => cases hrun

theorem run_insert (h : Ready toLowerCase settings db others t)
    (hrun : t.run toLowerCase settings db others (.id id) = some (some t')) : Next toLowerCase settings db others t' := by
  simp only [Tx.run] at hrun
  split at hrun
  next fromAccess email hpc haddress =>
    have hat : Claiming settings db t := by
      have := h.at_
      rwa [Tx.At, hpc] at this
    split at hrun
    · cases hrun
    next hfree =>
    split at hrun
    · cases hrun
    next hothers =>
    split at hrun
    · cases hrun
    next hnone =>
    cases hrun
    rw [Bool.or_eq_true, not_or] at hfree
    refine hat.enter h haddress rfl hfree.2 (fun u hu heq => hothers (List.any_eq_true.mpr ⟨u, hu, ?_⟩)) fun id' user' hid' hemail => ?_
    · rw [Bool.or_eq_true]
      exact .inl (decide_eq_true heq)
    · rw [not_not] at hnone
      have hmem : (id', user') ∈ db.users.select fun _ user => user.username = email || user.email = some email := by
        rw [Table.mem_select]
        exact ⟨hid', by simp [hemail]⟩
      rw [hnone] at hmem
      exact absurd hmem List.not_mem_nil
  next => cases hrun

/-- A row of the transaction is written again, under the email that it entered. -/
theorem Next.rewritten {user' : User} (hs : Sound settings db t) (hapart : ∀ u ∈ others, Apart t u) (hwrite : t.write = some (some user))
    (hemail : user'.email = user.email) (hc : Complete { t with write := some (some user'), pc := .commit }) :
    Next toLowerCase settings db others { t with write := some (some user'), pc := .commit } := by
  have heq : Tx.email { t with write := some (some user'), pc := .commit } = t.email := by
    rw [email_of_write hwrite, ← hemail]
    rfl
  have hrow : t.row.isSome = true := hs.write (by rw [hwrite]; rfl)
  refine ⟨⟨fun _ => hrow, hs.clear, hs.add, hs.approved, fun a ha => ⟨?_, (hs.removed a ha).2⟩, fun a ha => hs.email a (heq ▸ ha)⟩,
    hc, fun u hu => ⟨(hapart u hu).locks, (hapart u hu).row, fun a ha => (hapart u hu).email a (heq ▸ ha)⟩⟩
  exact heq ▸ (hs.removed a ha).1

/-- A row that is there is locked and written, its email left as it is. -/
theorem Ready.touch {user' : User} (h : Ready toLowerCase settings db others t) (hremoved : t.removed = none)
    (hid : db.users.lookup id = some user) (hemail : user'.email = user.email) (hfree : ¬(others.any fun o => o.row = some id) = true)
    (hc : Complete { t with row := some id, write := some (some user'), pc := .commit }) :
    Next toLowerCase settings db others { t with row := some id, write := some (some user'), pc := .commit } where
  sound := {
    write := fun _ => rfl
    clear := h.sound.clear
    add := h.sound.add
    approved := h.sound.approved
    removed := fun a ha => by cases hremoved.symm.trans ha
    email := fun a ha => by
      have ha : user.email = some a := hemail.symm.trans ha
      exact ⟨fun id' user'' hid' hemail' => congrArg some (h.unique id id' user user'' a hid hid' ha hemail'), .inl ⟨id, user, rfl, hid, ha⟩⟩ }
  at_ := hc
  apart u hu := {
    locks := (h.apart u hu).locks
    row := fun id' hid' hu' => by
      cases hid'
      exact hfree (List.any_eq_true.mpr ⟨u, hu, decide_eq_true hu'⟩)
    email := fun a ha hua => by
      have ha : user.email = some a := hemail.symm.trans ha
      exact hfree (List.any_eq_true.mpr ⟨u, hu, decide_eq_true (((h.others u hu).email a hua).1 id user hid ha)⟩) }

theorem run_settle {fromAccess arrived : Bool} (h : Ready toLowerCase settings db others t) (hpc : t.pc = .settle fromAccess id user arrived)
    (hrun : t.run toLowerCase settings db others .next = some (some t')) : Next toLowerCase settings db others t' := by
  have hat := h.at_
  rw [Tx.At, hpc] at hat
  obtain ⟨hadd, hremoved, hshed, happroved, hlocked, harrived⟩ := hat
  -- nothing but the approval of `createUser` is left to do
  have hcomplete (t₁ : Tx) (hop : t₁.op = t.op) (hr : t₁.removed = t.removed) (hs : t₁.shed = t.shed)
      (hne : ∀ a, t.op ≠ .createUser a) : Complete t₁ :=
    ⟨fun a ha => absurd (hop ▸ ha) (hne a), fun a ha => (by rw [hr, hremoved] at ha; cases ha),
      fun a ha => (by rw [hs, hshed] at ha; cases ha)⟩
  simp only [Tx.run, hpc] at hrun
  split at hrun
  next email hop =>
    split at hrun
    · cases hrun
    split at hrun
    · cases hrun
    cases hrun
    have haddress : t.op.address = some email := congrArg Op.address hop
    refine ⟨h.sound.approve (hlocked email haddress).1 (by simp [hremoved]) (by simp [hshed]) fun b _ hb => ?_, ⟨fun a ha => ?_, fun a ha => ?_, fun a ha => ?_⟩,
      fun u hu => ⟨(h.apart u hu).locks, (h.apart u hu).row, (h.apart u hu).email⟩⟩
    · exact Option.some.inj ((happroved b hb).symm.trans haddress)
    · exact congrArg some (Op.createUser.inj (hop.symm.trans ha))
    · cases hremoved.symm.trans ha
    · cases hshed.symm.trans ha
  next email hop =>
    have hne (a : String) : t.op ≠ .createUser a := by rw [hop]; exact fun h => by cases h
    split at hrun
    · cases hrun
      exact .read h.sound h.apart (hcomplete _ rfl rfl rfl hne)
    next hstays =>
    split at hrun
    · cases hrun
    next hfree =>
    obtain ⟨user', hid, rfl⟩ := Option.map_eq_some_iff.mp (Option.some.inj hrun)
    have hfresh : arrived = false := by
      cases arrived with
      | false => rfl
      | true => exact absurd rfl hstays
    rw [hfresh] at harrived
    exact h.touch hremoved hid rfl hfree (hcomplete _ rfl rfl rfl hne)
  next address cloudflare hop =>
    have hne (a : String) : t.op ≠ .createUser a := by rw [hop]; exact fun h => by cases h
    split at hrun
    · cases hrun
      exact .read h.sound h.apart (hcomplete _ rfl rfl rfl hne)
    split at hrun
    next hfrom =>
      cases hrun
      rw [Bool.and_eq_true, Bool.and_eq_true] at hfrom
      rw [if_pos hfrom.1.2] at harrived
      exact .rewritten h.sound h.apart harrived.2 rfl (hcomplete _ rfl rfl rfl hne)
    split at hrun
    · split at hrun
      next harr =>
        cases hrun
        rw [if_pos harr] at harrived
        exact .rewritten h.sound h.apart harrived.2 rfl (hcomplete _ rfl rfl rfl hne)
      next harr =>
        split at hrun
        · cases hrun
        next hfree =>
        obtain ⟨user', hid, rfl⟩ := Option.map_eq_some_iff.mp (Option.some.inj hrun)
        rw [if_neg harr] at harrived
        exact h.touch hremoved hid rfl hfree (hcomplete _ rfl rfl rfl hne)
    · cases hrun
      exact .read h.sound h.apart (hcomplete _ rfl rfl rfl hne)
  next email hop =>
    cases hrun
    exact .read h.sound h.apart (hcomplete _ rfl rfl rfl fun a => by rw [hop]; exact fun h => by cases h)
  next => cases hrun

theorem run_spec (h : Ready toLowerCase settings db others t)
    (hrun : t.run toLowerCase settings db others pick = some (some t')) : Next toLowerCase settings db others t' := by
  cases pick with
  | error =>
    rw [Tx.run] at hrun
    cases hrun
  | id id => exact run_insert h hrun
  | next =>
    cases hpc : t.pc with
    | known => exact run_known h hpc hrun
    | named => exact run_named h hpc hrun
    | lock todo named => exact run_lock h hpc hrun
    | guard named => exact run_guard h hpc hrun
    | target named => exact run_target h hpc hrun
    | taken current => exact run_taken h hpc hrun
    | clear current => exact run_clear h hpc hrun
    | add current => exact run_add h hpc hrun
    | update current => exact run_update h hpc hrun
    | delete current named => exact run_delete h hpc hrun
    | bury current named => exact run_bury h hpc hrun
    | allow => exact run_allow h hpc hrun
    | tombstoned => exact run_tombstoned h hpc hrun
    | find fromAccess => exact run_find h hpc hrun
    | claim fromAccess => exact run_claim h hpc hrun
    | claimRow fromAccess id => exact run_claimRow h hpc hrun
    | settle fromAccess id user arrived => exact run_settle h hpc hrun
    | insert | commit =>
      simp only [Tx.run, hpc] at hrun
      cases hrun

/-! ## Every run -/

structure Inv (toLowerCase : String → String) (settings : Settings) (s : State) : Prop where
  unique : Unique s.db.users
  barred : Barred settings s.db
  txs : ∀ (i : Nat) t, s.txs[i]? = some (some t) → Sound settings s.db t ∧ t.At toLowerCase settings s.db
  apart : ∀ (i j : Nat) t u, i ≠ j → s.txs[i]? = some (some t) → s.txs[j]? = some (some u) → Apart t u

theorem mem_others {i : Nat} : u ∈ s.others i ↔ ∃ j, i ≠ j ∧ s.txs[j]? = some (some u) := by
  rw [State.others, List.reduceOption_mem_iff, List.mem_iff_getElem?]
  refine exists_congr fun j => ?_
  rw [List.getElem?_set]
  by_cases hij : i = j
  · subst hij
    by_cases hlen : i < s.txs.length <;> simp [hlen]
  · simp [hij]

theorem Inv.set (h : Inv toLowerCase settings s) {i : Nat} {o : Option Tx} {t₀ : Tx} (hi : s.txs[i]? = some (some t₀))
    (hunique : Unique db'.users) (hbarred : Barred settings db')
    (hkeeps : ∀ (j : Nat) u, i ≠ j → s.txs[j]? = some (some u) → Keeps s.db db' u)
    (hnew : ∀ t, o = some t → Next toLowerCase settings db' (s.others i) t) :
    Inv toLowerCase settings { db := db', txs := s.txs.set i o } where
  unique := hunique
  barred := hbarred
  txs j t ht := by
    rcases (Agents.getElem?_set_some hi).mp ht with ⟨-, ho⟩ | ⟨hij, hj⟩
    · exact ⟨(hnew t ho.symm).sound, (hnew t ho.symm).at_⟩
    · obtain ⟨hs, hat⟩ := h.txs j t hj
      exact ⟨hs.keeps (hkeeps j t hij hj), hat.keeps (hkeeps j t hij hj)⟩
  apart j k t u hjk ht hu := by
    rcases (Agents.getElem?_set_some hi).mp ht with ⟨rfl, ho⟩ | ⟨hij, hj⟩
    · rcases (Agents.getElem?_set_some hi).mp hu with ⟨rfl, -⟩ | ⟨hik, hk⟩
      · exact absurd rfl hjk
      · exact (hnew t ho.symm).apart u (mem_others.mpr ⟨k, hik, hk⟩)
    · rcases (Agents.getElem?_set_some hi).mp hu with ⟨rfl, ho⟩ | ⟨hik, hk⟩
      · exact ((hnew u ho.symm).apart t (mem_others.mpr ⟨j, hij, hj⟩)).symm
      · exact h.apart j k t u hjk hj hk

theorem Keeps.refl : Keeps db db t := ⟨fun _ _ => rfl, fun _ _ h => h, fun _ _ _ _ h _ => h⟩

theorem Inv.ready (h : Inv toLowerCase settings s) {i : Nat} (hi : s.txs[i]? = some (some t)) (hsteady : t.steady toLowerCase s.db = true) :
    Ready toLowerCase settings s.db (s.others i) t where
  sound := (h.txs i t hi).1
  at_ := (h.txs i t hi).2
  apart u hu := by
    obtain ⟨j, hij, hj⟩ := mem_others.mp hu
    exact h.apart i j t u hij hi hj
  unique := h.unique
  others u hu := by
    obtain ⟨j, -, hj⟩ := mem_others.mp hu
    exact (h.txs j u hj).1
  steady := hsteady

theorem begin_fresh : Fresh op.begin ∧ op.begin.locks = [] := by
  cases op <;> exact ⟨⟨rfl, rfl, rfl, rfl, rfl, rfl, rfl⟩, rfl⟩

theorem begin_at : op.begin.At toLowerCase settings db := by
  have hlock {email : String} (h : op.needs toLowerCase none = [email]) : ∀ a ∈ op.needs toLowerCase none, a ∈ [] ∨ a ∈ [email] :=
    fun a ha => .inr (h ▸ ha)
  cases op with
  | createUser | allowEmail | importUser => exact ⟨begin_fresh.1, hlock rfl⟩
  | deleteUser => exact begin_fresh.1
  | resolveVerifiedUser => exact begin_fresh.1
  | updateUser id patch =>
    have hf : Fresh (Op.updateUser id patch).begin := begin_fresh.1
    rw [Op.begin] at hf ⊢
    split
    next hgiven =>
      rw [if_pos hgiven] at hf
      exact hf
    next hgiven =>
      rw [if_neg hgiven] at hf
      refine ⟨hf, fun a ha => ?_⟩
      rw [Op.needs, if_neg hgiven] at ha
      cases ha

/-- Each action of an administrator on a user finds the address that it locked (`Tx.steady`). -/
def steady (toLowerCase : String → String) (s : State) : Label → Bool
  | .run _ .error => true
  | .run i _ => (s.txs[i]?).join.all (·.steady toLowerCase s.db)
  | _ => true

theorem inv_step {l : Label} (h : Inv toLowerCase settings s) (hg : steady toLowerCase s l = true)
    (hstep : step toLowerCase settings s l = some s') : Inv toLowerCase settings s' := by
  cases l with
  | start op =>
    obtain rfl := Option.some.inj hstep
    obtain ⟨hf, hlocks⟩ : Fresh op.begin ∧ op.begin.locks = [] := begin_fresh
    have hleft {u : Tx} : Apart op.begin u := by
      refine ⟨fun a ha => ?_, fun id hid => ?_, fun a ha => ?_⟩
      · rw [hlocks] at ha
        cases ha
      · cases hf.row.symm.trans hid
      · cases hf.email.symm.trans ha
    refine ⟨h.unique, h.barred, fun i t hi => ?_, fun i j t u hij hi hj => ?_⟩
    · rcases Agents.getElem?_append_some.mp hi with hi | ⟨-, ht⟩
      · exact h.txs i t hi
      · rw [Option.some.inj ht]
        exact ⟨hf.sound, begin_at⟩
    · rcases Agents.getElem?_append_some.mp hi with hi | ⟨hin, ht⟩
      · rcases Agents.getElem?_append_some.mp hj with hj | ⟨-, hu⟩
        · exact h.apart i j t u hij hi hj
        · rw [Option.some.inj hu]
          exact hleft.symm
      · rw [Option.some.inj ht]
        exact hleft
  | policy emails =>
    obtain rfl := Option.some.inj hstep
    have hk (t : Tx) : Keeps s.db { s.db with policyEmails := emails } t := ⟨fun _ _ => rfl, fun _ _ h => h, fun _ _ _ _ h _ => h⟩
    exact ⟨h.unique, ⟨h.barred.removed, h.barred.approved⟩,
      fun i t hi => ⟨(h.txs i t hi).1.keeps (hk t), (h.txs i t hi).2.keeps (hk t)⟩, h.apart⟩
  | run i pick =>
    obtain ⟨t, ht, hstep⟩ := Option.bind_eq_some_iff.mp hstep
    obtain ⟨o, hrun, hs'⟩ := Option.bind_eq_some_iff.mp hstep
    obtain rfl := Option.some.inj hs'
    have hi : s.txs[i]? = some (some t) := Option.join_eq_some_iff.mp ht
    refine h.set hi h.unique h.barred (fun _ _ _ _ => .refl) fun t' ho => ?_
    subst ho
    cases pick with
    | error => cases hrun
    | _ =>
      have hg : (s.txs[i]?).join.all (·.steady toLowerCase s.db) = true := hg
      rw [ht] at hg
      exact run_spec (h.ready hi hg) hrun
  | commit i =>
    simp only [step] at hstep
    split at hstep
    next t ht =>
      split at hstep
      next hpc =>
        obtain rfl := Option.some.inj hstep
        have hi : s.txs[i]? = some (some t) := Option.join_eq_some_iff.mp ht
        obtain ⟨hs, hat⟩ := h.txs i t hi
        rw [Tx.At, hpc] at hat
        exact h.set hi (hs.commit_unique h.unique) (hs.commit_barred hat h.unique h.barred)
          (fun j u hij hj => hs.commit_keeps (h.apart i j t u hij hi hj)) fun t ht => (by cases ht)
      next => cases hstep
    next => cases hstep

theorem inv_invariant : (system toLowerCase settings).Invariant (fun s l => steady toLowerCase s l = true) (Inv toLowerCase settings) where
  init := by
    intro s hi
    have hnone {i : Nat} {t : Tx} (h : s.txs[i]? = some (some t)) : False := by
      rw [hi.txs] at h
      cases h
    refine ⟨fun id id' user user' a => hi.unique, ⟨fun a ha => ?_, fun a ha => ?_⟩, fun i t h => (hnone h).elim,
      fun i j t u _ h => (hnone h).elim⟩
    · cases (hi.last a).symm.trans ha
    · cases (hi.last a).symm.trans ha
  step := inv_step

/-- In every run in which the administrators' actions find the addresses they locked: an address that an administrator removed last,
by a deletion or by changing the email of its user, is nobody's email, those of bootstrap administrators aside; no two users have one
email; and an address that an administrator approved last has no tombstone. -/
theorem removed_stays_away (hs : (system toLowerCase settings).ReachesUnder (fun s l => steady toLowerCase s l = true) s) :
    (∀ a, s.db.last a = some .removed → a ∉ settings.bootstrapAdminEmails → ∀ id user, s.db.users.lookup id = some user →
      user.email ≠ some a) ∧
    Unique s.db.users ∧ ∀ a, s.db.last a = some .approved → a ∉ s.db.tombstones := by
  have h := inv_invariant.reachesUnder hs
  exact ⟨fun a ha => (h.barred.removed a ha).2, h.unique, h.barred.approved⟩

/-- Of texts in lower case. -/
def exampleLowerCase (s : String) : String := s

def exampleState : State where
  db := {
    users := (∅ : UserTable).insert 1 { username := "anna", email := some "anna@example.com" }
    tombstones := ∅ }
  txs := []

theorem exampleState_init : (system exampleLowerCase {}).init exampleState where
  unique {id id' user user' email} hid hid' _ _ := by
    have hone {k : UserId} {row : User} (h : exampleState.db.users.lookup k = some row) : k = 1 := by
      by_contra hne
      rw [exampleState, Table.lookup_insert', if_neg hne] at h
      cases h
    rw [hone hid, hone hid']
  last _ := rfl
  txs := rfl

/-- All the statements of transaction `i`, a deletion that finds one address. -/
def deleteLabels (i : Nat) : List Label :=
  [.run i .next, .run i .next, .run i .next, .run i .next, .run i .next, .run i .next, .commit i]

/-- A deleted user whose Access token is still valid. -/
theorem removed_stays_away_deleted : ∃ s : State, (system exampleLowerCase {}).ReachesUnder (fun s l => steady exampleLowerCase s l = true) s ∧
    s.db.last "anna@example.com" = some .removed ∧ ∀ id user, s.db.users.lookup id = some user → user.email ≠ some "anna@example.com" := by
  have htrace : ((system exampleLowerCase {}).exec (fun s l => steady exampleLowerCase s l = true) exampleState
      ([.start (.deleteUser 1), .run 0 .next] ++ deleteLabels 0 ++ [.start (.resolveVerifiedUser "anna@example.com" true), .run 1 .next,
        .run 1 .next, .run 1 .next, .run 1 .next])).any (fun s => s.db.last "anna@example.com" = some .removed) = true := by
    decide +kernel
  obtain ⟨s, hs, hp⟩ := TransitionSystem.reaches_of_exec exampleState_init htrace
  rw [decide_eq_true_eq] at hp
  exact ⟨s, hs, hp, (removed_stays_away hs).1 _ hp List.not_mem_nil⟩

/-- A deletion reads the address of the row before another administrator changes it, so it does not lock the address that it
buries: a sign-in that found no tombstone under the lock makes a new user of it after the deletion committed. -/
theorem removed_stays_away_changed : ∃ s : State, (system exampleLowerCase {}).Reachable s ∧ s.db.last "boris@example.com" = some .removed ∧
    ∃ user, s.db.users.lookup 3 = some user ∧ user.email = some "boris@example.com" := by
  have htrace : ((system exampleLowerCase {}).exec TransitionSystem.anyStep exampleState
      ([.start (.deleteUser 1), .run 0 .next, .start (.resolveVerifiedUser "boris@example.com" true), .run 1 .next,
        .start (.updateUser 1 { email := some (some "boris@example.com") })] ++
        List.replicate 10 (.run 2 .next) ++ [.commit 2, .run 1 .next, .run 1 .next, .run 1 .next] ++ deleteLabels 0 ++
        [.run 1 .next, .run 1 .next, .run 1 (.id 3), .run 1 .next, .commit 1])).any (fun s =>
        decide (s.db.last "boris@example.com" = some .removed) &&
        (s.db.users.lookup 3).any fun user => user.email = some "boris@example.com") = true := by
    decide +kernel
  obtain ⟨s, hs, hp⟩ := TransitionSystem.reaches_of_exec exampleState_init htrace
  simp only [Bool.and_eq_true, decide_eq_true_eq, Option.any_eq_true] at hp
  obtain ⟨hlast, user, hid, hemail⟩ := hp
  exact ⟨s, hs, hlast, user, hid, hemail⟩

end MailExpert.Addresses
