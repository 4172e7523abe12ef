import MailExpert.Addresses.Transactions

/-!
# What a transaction relies on

A transaction relies on the row it holds, on its own addresses having no new tombstone, and on nobody else entering its email
(`Keeps`). It holds the lock of each address whose tombstones it writes, so the commits of the others keep all three.
-/

namespace MailExpert.Addresses

open AccessSync (User UserTable normalizeEmail)

variable {toLowerCase : String → String} {settings : Settings} {db db' : Db} {t t' u : Tx} {others : List Tx} {pick : Pick}
  {a b : String} {id : UserId} {user current : User} {named : Option User} {op : Op} {patch : Patch} {users : UserTable}

def Unique (users : UserTable) : Prop := ∀ id id' user user' a, users.lookup id = some user → users.lookup id' = some user' →
  user.email = some a → user'.email = some a → id = id'

/-- Two open transactions. -/
structure Apart (t u : Tx) : Prop where
  locks : ∀ a ∈ t.locks, a ∉ u.locks
  row : ∀ id, t.row = some id → u.row ≠ some id
  email : ∀ a, t.email = some a → u.email ≠ some a

theorem Apart.symm (h : Apart t u) : Apart u t where
  locks a hu ht := h.locks a ht hu
  row id hu ht := h.row id ht hu
  email a hu ht := h.email a ht hu

/-- What the transaction relies on is left. -/
structure Keeps (db db' : Db) (t : Tx) : Prop where
  row : ∀ id, t.row = some id → db'.users.lookup id = db.users.lookup id
  tombstones : ∀ a ∈ t.locks, a ∉ db.tombstones → a ∉ db'.tombstones
  email : ∀ a, t.email = some a → ∀ id user, db'.users.lookup id = some user → user.email = some a → db.users.lookup id = some user

/-- The transaction has written nothing, and holds no row. -/
structure Fresh (t : Tx) : Prop where
  row : t.row = none
  write : t.write = none
  clear : t.clear = none
  add : t.add = none
  approved : t.approved = none
  removed : t.removed = none
  shed : t.shed = none

/-- What a transaction has written, at any statement. -/
structure Sound (settings : Settings) (db : Db) (t : Tx) : Prop where
  write : t.write.isSome = true → t.row.isSome = true
  clear : ∀ a, t.clear = some a → t.approved = some a
  add : ∀ a, t.add = some a → a ∈ t.locks ∧ (t.removed = some a ∨ t.shed = some a)
  approved : ∀ a, t.approved = some a → (t.clear = some a ∨ a ∉ db.tombstones) ∧ t.removed ≠ some a ∧ t.shed ≠ some a ∧ a ∈ t.locks
  removed : ∀ a, t.removed = some a → t.email ≠ some a ∧
    ∃ id user, t.row = some id ∧ db.users.lookup id = some user ∧ user.email = some a
  /-- Nobody but its own row has the email it enters. One that its row did not have is approved, of a bootstrap administrator, or has
  no tombstone. -/
  email : ∀ a, t.email = some a → (∀ id user, db.users.lookup id = some user → user.email = some a → t.row = some id) ∧
    ((∃ id user, t.row = some id ∧ db.users.lookup id = some user ∧ user.email = some a) ∨
      a ∈ t.locks ∧ (t.approved = some a ∨ a ∈ settings.bootstrapAdminEmails ∨ a ∉ db.tombstones ∨ t.op = .createUser a))

theorem Fresh.email (h : Fresh t) : t.email = none := by
  rw [Tx.email, h.write]
  rfl

theorem Fresh.sound (h : Fresh t) : Sound settings db t where
  write hw := by simp [h.write] at hw
  clear a ha := by simp [h.clear] at ha
  add a ha := by simp [h.add] at ha
  approved a ha := by simp [h.approved] at ha
  removed a ha := by simp [h.removed] at ha
  email a ha := by simp [h.email] at ha

theorem Sound.keeps (h : Sound settings db t) (hk : Keeps db db' t) : Sound settings db' t where
  write := h.write
  clear := h.clear
  add := h.add
  approved a ha := by
    obtain ⟨hclear, hrest⟩ := h.approved a ha
    exact ⟨hclear.imp_right (hk.tombstones a hrest.2.2), hrest⟩
  removed a ha := by
    obtain ⟨hne, id, user, hrow, hid, hemail⟩ := h.removed a ha
    exact ⟨hne, id, user, hrow, (hk.row id hrow).trans hid, hemail⟩
  email a ha := by
    obtain ⟨hown, hnew⟩ := h.email a ha
    refine ⟨fun id user hid hemail => hown id user (hk.email a ha id user hid hemail) hemail, ?_⟩
    rcases hnew with ⟨id, user, hrow, hid, hemail⟩ | ⟨hlock, happroved | hbootstrap | htomb | hop⟩
    · exact .inl ⟨id, user, hrow, (hk.row id hrow).trans hid, hemail⟩
    · exact .inr ⟨hlock, .inl happroved⟩
    · exact .inr ⟨hlock, .inr (.inl hbootstrap)⟩
    · exact .inr ⟨hlock, .inr (.inr (.inl (hk.tombstones a hlock htomb)))⟩
    · exact .inr ⟨hlock, .inr (.inr (.inr hop))⟩

/-! ## A commit -/

theorem lookup_commit (h : Sound settings db t) : (t.users users).lookup id =
    if t.row = some id then t.write.getD (users.lookup id) else users.lookup id := by
  unfold Tx.users
  split
  next id' user' hrow hwrite =>
    rw [Table.lookup_insert', hrow, hwrite]
    by_cases heq : id = id'
    · simp [heq]
    · simp [heq, Ne.symm heq]
  next id' hrow hwrite =>
    rw [Table.lookup_erase', hrow, hwrite]
    by_cases heq : id = id'
    · simp [heq]
    · simp [heq, Ne.symm heq]
  next hsome hnone =>
    cases hwrite : t.write with
    | none => simp
    | some row =>
      obtain ⟨id', hrow⟩ := Option.isSome_iff_exists.mp (h.write (by rw [hwrite]; rfl))
      cases row with
      | none => exact absurd hwrite (hnone id' hrow)
      | some user => exact absurd hwrite (hsome id' user hrow)

theorem mem_tombstones_commit : a ∈ (t.commit db).tombstones ↔ (a ∈ db.tombstones ∧ t.clear ≠ some a) ∨ t.add = some a := by
  simp [Tx.commit, Option.mem_toFinset]

/-- A row after a commit is the one that was written, or was there before. -/
theorem lookup_commit_some (h : Sound settings db t) (hid : (t.commit db).users.lookup id = some user) :
    (t.row = some id ∧ t.write = some (some user)) ∨ (db.users.lookup id = some user ∧ (t.row = some id → t.write = none)) := by
  have hid : (t.users db.users).lookup id = some user := hid
  rw [lookup_commit h] at hid
  split at hid
  next hrow =>
    cases hwrite : t.write with
    | none =>
      rw [hwrite] at hid
      exact .inr ⟨hid, fun _ => rfl⟩
    | some row =>
      rw [hwrite] at hid
      exact .inl ⟨hrow, congrArg some hid⟩
  next hrow => exact .inr ⟨hid, fun h => absurd h hrow⟩

theorem email_of_write (h : t.write = some (some user)) : t.email = user.email := by
  rw [Tx.email, h]
  rfl

/-- A commit keeps what the other transactions rely on. -/
theorem Sound.commit_keeps (h : Sound settings db t) (hu : Apart t u) : Keeps db (t.commit db) u where
  row id hrow := by
    show (t.users db.users).lookup id = _
    rw [lookup_commit h, if_neg fun ht => hu.row id ht hrow]
  tombstones a hlock hnot hmem := by
    rcases mem_tombstones_commit.mp hmem with ⟨hin, -⟩ | hadd
    · exact hnot hin
    · exact hu.locks a (h.add a hadd).1 hlock
  email a ha id user hid hemail := by
    rcases lookup_commit_some h hid with ⟨-, hwrite⟩ | ⟨hold, -⟩
    · exact absurd ha (hu.email a ((email_of_write hwrite).trans hemail))
    · exact hold

theorem Sound.commit_unique (h : Sound settings db t) (hunique : Unique db.users) : Unique (t.commit db).users := by
  intro id id' user user' a hid hid' ha ha'
  rcases lookup_commit_some h hid with ⟨hrow, hwrite⟩ | ⟨hold, -⟩
  · rcases lookup_commit_some h hid' with ⟨hrow', -⟩ | ⟨hold', -⟩
    · exact Option.some.inj (hrow.symm.trans hrow')
    · have hown := (h.email a ((email_of_write hwrite).trans ha)).1 id' user' hold' ha'
      exact Option.some.inj (hrow.symm.trans hown)
  · rcases lookup_commit_some h hid' with ⟨hrow', hwrite'⟩ | ⟨hold', -⟩
    · have hown := (h.email a ((email_of_write hwrite').trans ha')).1 id user hold ha
      exact Option.some.inj (hown.symm.trans hrow')
    · exact hunique id id' user user' a hold hold' ha ha'

/-- A removed address has its tombstone and is nobody's email, those of bootstrap administrators aside, and an approved one has no
tombstone. -/
structure Barred (settings : Settings) (db : Db) : Prop where
  removed : ∀ a, db.last a = some .removed → a ∈ db.tombstones ∧
    (a ∉ settings.bootstrapAdminEmails → ∀ id user, db.users.lookup id = some user → user.email ≠ some a)
  approved : ∀ a, db.last a = some .approved → a ∉ db.tombstones

/-- What a transaction has done by the time it commits. -/
structure Complete (t : Tx) : Prop where
  created : ∀ a, t.op = .createUser a → t.approved = some a
  removed : ∀ a, t.removed = some a → t.add = some a ∧ t.write.isSome = true
  shed : ∀ a, t.shed = some a → t.add = some a

theorem Sound.commit_barred (h : Sound settings db t) (hc : Complete t) (hunique : Unique db.users) (hb : Barred settings db) :
    Barred settings (t.commit db) where
  removed a hlast := by
    have hlast : (if t.approved = some a then some Last.approved else if t.removed = some a then some .removed else
      if t.shed = some a then if (t.users db.users).select (fun _ user => user.email = some a) = [] then some .removed else none
      else db.last a) = some .removed := hlast
    split at hlast
    · cases hlast
    next happroved =>
    split at hlast
    next hremoved =>
      obtain ⟨hadd, hwrite⟩ := hc.removed a hremoved
      obtain ⟨hne, id, user, hrow, hid, hemail⟩ := h.removed a hremoved
      refine ⟨mem_tombstones_commit.mpr (.inr hadd), fun _ id' user' hid' hemail' => ?_⟩
      rcases lookup_commit_some h hid' with ⟨-, hwrite'⟩ | ⟨hold, hnone⟩
      · exact hne ((email_of_write hwrite').trans hemail')
      · obtain rfl := hunique id id' user user' a hid hold hemail hemail'
        rw [hnone hrow] at hwrite
        cases hwrite
    next hremoved =>
    split at hlast
    next hshed =>
      split at hlast
      next hnone =>
        refine ⟨mem_tombstones_commit.mpr (.inr (hc.shed a hshed)), fun _ id user hid hemail => ?_⟩
        have hmem : (id, user) ∈ (t.users db.users).select fun _ user => user.email = some a :=
          Table.mem_select.mpr ⟨hid, by simpa using hemail⟩
        rw [hnone] at hmem
        exact List.not_mem_nil hmem
      next => cases hlast
    next =>
      obtain ⟨htomb, hnobody⟩ := hb.removed a hlast
      refine ⟨mem_tombstones_commit.mpr (.inl ⟨htomb, fun hclear => happroved (h.clear a hclear)⟩), fun hboot id user hid hemail => ?_⟩
      rcases lookup_commit_some h hid with ⟨-, hwrite⟩ | ⟨hold, -⟩
      · rcases (h.email a ((email_of_write hwrite).trans hemail)).2 with ⟨id', user', -, hid', hemail'⟩ | ⟨-, hin | hin | hin | hop⟩
        · exact hnobody hboot id' user' hid' hemail'
        · exact happroved hin
        · exact hboot hin
        · exact hin htomb
        · exact happroved (hc.created a hop)
      · exact hnobody hboot id user hold hemail
  approved a hlast hmem := by
    have hlast : (if t.approved = some a then some Last.approved else if t.removed = some a then some .removed else
      if t.shed = some a then if (t.users db.users).select (fun _ user => user.email = some a) = [] then some .removed else none
      else db.last a) = some .approved := hlast
    rcases mem_tombstones_commit.mp hmem with ⟨hin, hclear⟩ | hadd
    · split at hlast
      next happroved =>
        rcases (h.approved a happroved).1 with hcl | hnot
        · exact hclear hcl
        · exact hnot hin
      split at hlast
      · cases hlast
      split at hlast
      · split at hlast <;> cases hlast
      · exact hb.approved a hlast hin
    · have hgone := (h.add a hadd).2
      split at hlast
      next happroved =>
        obtain ⟨-, hnr, hns, -⟩ := h.approved a happroved
        exact hgone.elim hnr hns
      next =>
      rcases hgone with hr | hs
      · rw [if_pos hr] at hlast
        cases hlast
      · split at hlast
        · cases hlast
        · split at hlast <;> cases hlast

end MailExpert.Addresses
