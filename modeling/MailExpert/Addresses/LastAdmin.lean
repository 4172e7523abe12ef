import MailExpert.Addresses.Administrators

/-!
# The last active administrator stays

Only a holder of the guard takes an administrator away, so what it counted stays until it commits: the others raise rows that it does
not hold (`Above`). Each transaction carries what makes its commit harmless, `Left` of a holder and `Raised` of the others.
-/

namespace MailExpert.Administrators

open AccessSync (User UserTable)
open Addresses

variable {toLowerCase : String → String} {settings : Settings} {db db' : Db} {t t' u : Tx} {others : List Tx} {pick : Pick}
  {id : UserId} {user user' current : User} {row row' : Option User} {named : Option User} {op : Op} {users users' : UserTable}
  {d d' : Disabling} {s s' : State}

/-- Whoever was an active administrator still is one. -/
structure Below (user user' : User) : Prop where
  is_admin : user.is_admin = true → user'.is_admin = true
  disabled : user'.disabled = true → user.disabled = true
  email : user.email.isSome = true → user'.email.isSome = true

theorem Below.refl : Below user user := ⟨id, id, id⟩

theorem countsAsActiveAdmin_iff {googleMode : Bool} : countsAsActiveAdmin user googleMode = true ↔
    user.is_admin = true ∧ user.disabled = false ∧ (googleMode = true → user.email.isSome = true) := by
  cases googleMode <;> simp [countsAsActiveAdmin, and_assoc]

theorem Below.counts {googleMode : Bool} (h : Below user user') (hc : countsAsActiveAdmin user googleMode = true) :
    countsAsActiveAdmin user' googleMode = true := by
  obtain ⟨ha, hd, he⟩ := countsAsActiveAdmin_iff.mp hc
  refine countsAsActiveAdmin_iff.mpr ⟨h.is_admin ha, ?_, fun hg => h.email (he hg)⟩
  cases hd' : user'.disabled with
  | false => rfl
  | true => exact absurd (h.disabled hd') (by simp [hd])

/-- No row went away, and none is less of an administrator. -/
def Above (users users' : UserTable) : Prop :=
  ∀ id user, users.lookup id = some user → ∃ user', users'.lookup id = some user' ∧ Below user user'

/-- The row is no less of an administrator than the one it replaces. -/
def Raised (users : UserTable) (id : UserId) (user : User) : Prop := ∀ old, users.lookup id = some old → Below old user

/-- There is an active administrator with `row` as the row of `id`. -/
def Left (settings : Settings) (users : UserTable) (id : UserId) (row : Option User) : Prop :=
  ∃ k user, (if k = id then row else users.lookup k) = some user ∧ countsAsActiveAdmin user settings.googleMode = true

theorem ActiveAdmin.above (h : ActiveAdmin settings users) (ha : Above users users') : ActiveAdmin settings users' := by
  obtain ⟨id, user, hid, hc⟩ := h
  obtain ⟨user', hid', hb⟩ := ha id user hid
  exact ⟨id, user', hid', hb.counts hc⟩

theorem Left.above (h : Left settings users id row) (ha : Above users users') : Left settings users' id row := by
  obtain ⟨k, user, hk, hc⟩ := h
  by_cases heq : k = id
  · exact ⟨k, user, by rwa [if_pos heq] at hk ⊢, hc⟩
  · rw [if_neg heq] at hk
    obtain ⟨user', hk', hb⟩ := ha k user hk
    exact ⟨k, user', by rwa [if_neg heq], hb.counts hc⟩

theorem Left.mono (h : Left settings users id row) (hrow : ∀ user, row = some user → ∃ user', row' = some user' ∧ Below user user') :
    Left settings users id row' := by
  obtain ⟨k, user, hk, hc⟩ := h
  by_cases heq : k = id
  · rw [if_pos heq] at hk
    obtain ⟨user', hrow', hb⟩ := hrow user hk
    exact ⟨k, user', by rwa [if_pos heq], hb.counts hc⟩
  · exact ⟨k, user, by rwa [if_neg heq] at hk ⊢, hc⟩

/-- The other active administrator that the statement counts. -/
theorem exists_other (h : otherActiveAdminExists users id settings.googleMode = true) :
    ∃ k user, k ≠ id ∧ users.lookup k = some user ∧ countsAsActiveAdmin user settings.googleMode = true := by
  obtain ⟨⟨k, user⟩, hmem⟩ := List.exists_mem_of_ne_nil _ (of_decide_eq_true h)
  obtain ⟨hk, hp⟩ := Table.mem_select.mp hmem
  refine ⟨k, user, ?_, hk, countsAsActiveAdmin_iff.mpr ?_⟩
  · intro heq
    simp [heq] at hp
  · cases hg : settings.googleMode <;> simp [hg] at hp ⊢ <;> tauto

theorem Left.of_other (h : otherActiveAdminExists users id settings.googleMode = true) : Left settings users id row := by
  obtain ⟨k, user, hne, hk, hc⟩ := exists_other h
  exact ⟨k, user, by rwa [if_neg hne], hc⟩

/-- An action that does not take the administrator away needs no other one. -/
theorem Left.of_not_takesAway (h : ActiveAdmin settings users) (hid : users.lookup id = some current)
    (hkeep : takesAway settings op current = false) : Left settings users id (after op current) := by
  obtain ⟨k, user, hk, hc⟩ := h
  by_cases heq : k = id
  · subst heq
    obtain rfl := Option.some.inj (hid.symm.trans hk)
    have hany : (after op current).any (countsAsActiveAdmin · settings.googleMode) = true := by
      simpa [takesAway, hc] using hkeep
    obtain ⟨user, hafter, hcounts⟩ := (Option.any_eq_true _ _).mp hany
    exact ⟨k, user, by rw [if_pos rfl, hafter], hcounts⟩
  · exact ⟨k, user, by rwa [if_neg heq], hc⟩

/-! ## One transaction -/

/-- The statements of an action that raises rows. -/
def raises : Pc → Bool
  | .known | .lock _ _ | .allow | .tombstoned | .find _ | .claim _ | .claimRow _ _ | .insert _ | .settle _ _ _ _ | .commit => true
  | _ => false

/-- A transaction that takes no administrator away: a sign-in, an approval or an import. -/
structure Raising (users : UserTable) (t : Tx) : Prop where
  target : t.op.target = none
  guard : t.guard = false
  pc : raises t.pc = true
  write : ∀ row, t.write = some row → ∃ id user, t.row = some id ∧ row = some user ∧ Raised users id user
  settle : ∀ fromAccess id user, t.pc = .settle fromAccess id user true → t.row = some id ∧ t.write = some (some user)

/-- An administrator's action that has read nothing yet. -/
structure Early (t : Tx) : Prop where
  row : t.row = none
  write : t.write = none

/-- An administrator's action that holds the guard and the row: there is an administrator whatever `row` becomes. -/
structure Holder (settings : Settings) (users : UserTable) (t : Tx) (id : UserId) (row : Option User) : Prop where
  guard : t.guard = true
  holds : t.row = some id
  left : Left settings users id row

/-- What holds of `updateUser` and `deleteUser` at a statement. -/
def Taking (settings : Settings) (users : UserTable) (t : Tx) (id : UserId) : Prop :=
  match t.pc with
  | .named | .lock _ _ | .guard _ => Early t ∧ t.guard = false
  | .target _ => Early t ∧ t.guard = true
  | .taken current | .clear current | .add current | .update current =>
    (∃ user, after t.op current = some user) ∧ t.write = none ∧ Holder settings users t id (after t.op current)
  | .delete _ _ => t.write = none ∧ Holder settings users t id none
  | .bury _ _ | .commit => ∃ row, t.write = some row ∧ Holder settings users t id row
  | _ => False

/-- What holds of a transaction of `Addresses.Transactions`. -/
def TxFits (settings : Settings) (users : UserTable) (t : Tx) : Prop :=
  Raising users t ∨ ∃ id, t.op.target = some id ∧ Taking settings users t id

/-- What a statement adds to the locks was free. -/
structure Gains (others : List Tx) (t t' : Tx) : Prop where
  guard : t'.guard = true → t.guard = true ∨ ∀ u ∈ others, u.guard = false
  row : ∀ id, t'.row = some id → t.row = some id ∨ ∀ u ∈ others, u.row ≠ some id

theorem Gains.refl {pc : Pc} : Gains others t { t with pc } := ⟨.inl, fun _ => .inl⟩

theorem not_any {p : Tx → Bool} (h : ¬others.any p = true) : ∀ u ∈ others, p u = false :=
  fun u hu => Bool.eq_false_iff.mpr fun hp => h (List.any_eq_true.mpr ⟨u, hu, hp⟩)

theorem Raising.goes {pc : Pc} (h : Raising users t) (hpc : raises pc = true)
    (hs : ∀ fromAccess id user, pc ≠ .settle fromAccess id user true) : Raising users { t with pc } where
  target := h.target
  guard := h.guard
  pc := hpc
  write := h.write
  settle fromAccess id user heq := absurd heq (hs fromAccess id user)

/-- A raising transaction writes the row that it locked. -/
theorem Raising.writes {pc : Pc} (h : Raising users t) (hpc : raises pc = true) (hr : Raised users id user)
    (hs : ∀ fromAccess id' user', pc = .settle fromAccess id' user' true → id' = id ∧ user' = user) :
    Raising users { t with row := some id, write := some (some user), pc } where
  target := h.target
  guard := h.guard
  pc := hpc
  write row heq := ⟨id, user, rfl, (Option.some.inj heq).symm, hr⟩
  settle fromAccess id' user' heq := by
    obtain ⟨rfl, rfl⟩ := hs fromAccess id' user' heq
    exact ⟨rfl, rfl⟩

theorem free_row (h : ¬(others.any fun o => o.row = some id) = true) : ∀ u ∈ others, u.row ≠ some id :=
  fun u hu => by simpa using not_any h u hu

theorem Below.raised (h : users.lookup id = some user) (hb : Below user user') : Raised users id user' := by
  intro old hold
  obtain rfl := Option.some.inj (h.symm.trans hold)
  exact hb

theorem raises_locked (h : op.target = none) : raises (op.locked settings named) = true ∧
    ∀ fromAccess id user, op.locked settings named ≠ .settle fromAccess id user true := by
  cases op with
  | createUser | allowEmail | importUser => exact ⟨rfl, nofun⟩
  | updateUser | deleteUser => cases h
  | resolveVerifiedUser =>
    rw [Op.locked]
    split <;> exact ⟨rfl, by simp⟩

/-- What an action does with the user of its address. -/
theorem Raising.settles {fromAccess arrived : Bool} (h : Raising db.users t) (hpc : t.pc = .settle fromAccess id user arrived)
    (hrun : t.run toLowerCase settings db others .next = some (some t')) : Raising db.users t' ∧ Gains others t t' := by
  have hcommit : Raising db.users { t with pc := .commit } := h.goes rfl nofun
  have hrewrite {user' : User} (harrived : arrived = true) (hb : Below user user') :
      Raising db.users { t with write := some (some user'), pc := .commit } := by
    obtain ⟨hrow, hwrite⟩ := h.settle fromAccess id user (harrived ▸ hpc)
    obtain ⟨id', row, hid', hrow', hr⟩ := h.write _ hwrite
    cases hrow'
    refine ⟨h.target, h.guard, rfl, fun row heq => ⟨id, user', hrow, (Option.some.inj heq).symm, fun old hold => ?_⟩, nofun⟩
    obtain rfl := Option.some.inj (hrow.symm.trans hid')
    have hb' := hr old hold
    exact ⟨hb.is_admin ∘ hb'.is_admin, hb'.disabled ∘ hb.disabled, hb.email ∘ hb'.email⟩
  have htouch {user₀ user' : User} (hid : db.users.lookup id = some user₀) (hb : Below user₀ user')
      (hfree : ¬(others.any fun o => o.row = some id) = true) :
      Raising db.users { t with row := some id, write := some (some user'), pc := .commit } ∧
        Gains others t { t with row := some id, write := some (some user'), pc := .commit } :=
    ⟨h.writes rfl (hb.raised hid) nofun, .inl, fun id' heq => .inr (Option.some.inj heq ▸ free_row hfree)⟩
  simp only [Tx.run, hpc] at hrun
  split at hrun
  next email hop =>
    split at hrun
    · cases hrun
    split at hrun
    · cases hrun
    · cases hrun
      exact ⟨⟨h.target, h.guard, rfl, h.write, by simp⟩, .inl, fun _ => .inl⟩
  next email hop =>
    split at hrun
    · cases hrun
      exact ⟨hcommit, .refl⟩
    split at hrun
    · cases hrun
    next hfree =>
    obtain ⟨user₀, hid, rfl⟩ := Option.map_eq_some_iff.mp (Option.some.inj hrun)
    exact htouch hid ⟨fun h => h, fun h => absurd h (by simp), fun h => h⟩ hfree
  next address cloudflare hop =>
    split at hrun
    · cases hrun
      exact ⟨hcommit, .refl⟩
    split at hrun
    next harrived =>
      cases hrun
      exact ⟨hrewrite (by simp at harrived; exact harrived.1.2) ⟨fun h => h, fun h => h, fun h => h⟩, .inl, fun _ => .inl⟩
    split at hrun
    · split at hrun
      next harrived =>
        cases hrun
        exact ⟨hrewrite harrived ⟨fun _ => rfl, fun h => h, fun h => h⟩, .inl, fun _ => .inl⟩
      split at hrun
      · cases hrun
      next hfree =>
      obtain ⟨user₀, hid, rfl⟩ := Option.map_eq_some_iff.mp (Option.some.inj hrun)
      exact htouch hid ⟨fun _ => rfl, fun h => h, fun h => h⟩ hfree
    · cases hrun
      exact ⟨hcommit, .refl⟩
  next =>
    cases hrun
    exact ⟨hcommit, .refl⟩
  next => cases hrun

theorem Raising.run (h : Raising db.users t) (hrun : t.run toLowerCase settings db others pick = some (some t')) :
    Raising db.users t' ∧ Gains others t t' := by
  have hgoes {pc : Pc} (hpc : raises pc = true) (hs : ∀ fromAccess id user, pc ≠ .settle fromAccess id user true) :
      Raising db.users { t with pc } ∧ Gains others t { t with pc } := ⟨h.goes hpc hs, .refl⟩
  have hpc := h.pc
  cases pick with
  | error => cases hrun
  | id id =>
    simp only [Tx.run] at hrun
    split at hrun
    next fromAccess email hat hemail =>
      split at hrun
      · cases hrun
      next hfree =>
      split at hrun
      · cases hrun
      split at hrun
      · cases hrun
      cases hrun
      simp only [Bool.or_eq_true, not_or] at hfree
      refine ⟨h.writes rfl (fun old hold => ?_) ?_, .inl, fun id' heq => .inr (Option.some.inj heq ▸ free_row hfree.2)⟩
      · exact absurd (by rw [hold]; rfl) hfree.1
      · rintro _ _ _ heq
        cases heq
        exact ⟨rfl, rfl⟩
    next => cases hrun
  | next =>
    cases hat : t.pc with
    | known =>
      simp only [Tx.run, hat] at hrun
      split at hrun
      next address cloudflare hop =>
        have hrun := Option.some.inj hrun
        split at hrun
        · split at hrun
          · cases hrun
          · cases hrun
            exact hgoes rfl (by simp)
        · split at hrun
          · cases hrun
          · cases hrun
            exact hgoes rfl (by simp)
      next => cases hrun
    | lock todo named =>
      cases todo with
      | nil =>
        simp only [Tx.run, hat] at hrun
        cases hrun
        exact hgoes (raises_locked h.target).1 (raises_locked h.target).2
      | cons a todo =>
        simp only [Tx.run, hat] at hrun
        split at hrun
        · cases hrun
        · cases hrun
          exact ⟨⟨h.target, h.guard, rfl, h.write, by simp⟩, .inl, fun _ => .inl⟩
    | allow =>
      simp only [Tx.run, hat] at hrun
      split at hrun
      next email hop =>
        split at hrun
        · cases hrun
        · cases hrun
          exact ⟨⟨h.target, h.guard, rfl, h.write, by simp⟩, .inl, fun _ => .inl⟩
      next => cases hrun
    | tombstoned =>
      simp only [Tx.run, hat] at hrun
      split at hrun
      next email hemail =>
        have hrun := Option.some.inj hrun
        split at hrun
        · cases hrun
        · cases hrun
          exact hgoes rfl (by simp)
      next => cases hrun
    | find fromAccess =>
      simp only [Tx.run, hat] at hrun
      split at hrun
      next email hemail =>
        cases hrun
        split
        · exact hgoes rfl (by simp)
        · exact hgoes rfl (by simp)
      next => cases hrun
    | claim fromAccess =>
      simp only [Tx.run, hat] at hrun
      split at hrun
      next email hemail =>
        cases hrun
        split
        · exact hgoes rfl (by simp)
        · exact hgoes rfl (by simp)
      next => cases hrun
    | claimRow fromAccess id =>
      simp only [Tx.run, hat] at hrun
      split at hrun
      next email hemail =>
        split at hrun
        · cases hrun
        next hfree =>
        split at hrun
        · cases hrun
          exact hgoes rfl (by simp)
        next user hid =>
        split at hrun
        · cases hrun
        split at hrun
        · cases hrun
        cases hrun
        refine ⟨h.writes rfl (Below.raised hid ⟨fun h => h, fun h => h, fun _ => rfl⟩) ?_, .inl,
          fun id' heq => .inr (Option.some.inj heq ▸ free_row hfree)⟩
        rintro _ _ _ heq
        cases heq
        exact ⟨rfl, rfl⟩
      next => cases hrun
    | insert fromAccess => simp [Tx.run, hat] at hrun
    | settle fromAccess id user arrived => exact h.settles hat hrun
    | commit => simp [Tx.run, hat] at hrun
    | named | guard | target | taken | clear | add | update | delete | bury =>
      rw [hat] at hpc
      cases hpc

/-- The rows that the two kinds of administrators' actions are about. -/
theorem target_eq_some (h : op.target = some id) : (∃ patch, op = .updateUser id patch) ∨ op = .deleteUser id := by
  cases op with
  | updateUser id' patch => exact .inl ⟨patch, by rw [Option.some.inj h]⟩
  | deleteUser id' => exact .inr (by rw [Option.some.inj h])
  | _ => cases h

theorem Holder.next {pc : Pc} {write : Option (Option User)} {clear add approved removed shed : Option String}
    (h : Holder settings users t id row) :
    Holder settings users { t with pc, write, clear, add, approved, removed, shed } id row where
  guard := h.guard
  holds := h.holds
  left := h.left

/-- A statement of `updateUser` on the row that it holds. -/
theorem Taking.run_update {patch : Patch} (hop : t.op = .updateUser id patch) (h : Taking settings db.users t id)
    (hpc : t.pc = .taken current ∨ t.pc = .clear current ∨ t.pc = .add current ∨ t.pc = .update current)
    (hrun : t.run toLowerCase settings db others .next = some (some t')) :
    t'.op = t.op ∧ Taking settings db.users t' id ∧ Gains others t t' := by
  obtain ⟨-, hwrite, hh⟩ : (∃ user, after t.op current = some user) ∧ t.write = none ∧
      Holder settings db.users t id (after t.op current) := by
    rcases hpc with hpc | hpc | hpc | hpc <;> simpa only [Taking, hpc] using h
  obtain ⟨op, pc, locks, guard, row, write, clear, add, approved, removed, shed⟩ := t
  obtain rfl : op = .updateUser id patch := hop
  have hafter : after (.updateUser id patch) current = some (patch.after current) := rfl
  rcases hpc with hpc | hpc | hpc | hpc
  · obtain rfl := hpc
    simp only [Tx.run] at hrun
    split at hrun
    · split at hrun
      · cases hrun
      · cases hrun
        exact ⟨rfl, ⟨⟨_, hafter⟩, hwrite, hh.next⟩, ⟨.inl, fun _ => .inl⟩⟩
    · cases hrun
      exact ⟨rfl, ⟨⟨_, hafter⟩, hwrite, hh.next⟩, ⟨.inl, fun _ => .inl⟩⟩
  · obtain rfl := hpc
    simp only [Tx.run] at hrun
    split at hrun
    · split at hrun
      · cases hrun
        exact ⟨rfl, ⟨⟨_, hafter⟩, hwrite, hh.next⟩, ⟨.inl, fun _ => .inl⟩⟩
      split at hrun
      · cases hrun
      · cases hrun
        exact ⟨rfl, ⟨⟨_, hafter⟩, hwrite, hh.next⟩, ⟨.inl, fun _ => .inl⟩⟩
    · cases hrun
      exact ⟨rfl, ⟨⟨_, hafter⟩, hwrite, hh.next⟩, ⟨.inl, fun _ => .inl⟩⟩
  · obtain rfl := hpc
    simp only [Tx.run] at hrun
    split at hrun
    · split at hrun
      · cases hrun
        exact ⟨rfl, ⟨⟨_, hafter⟩, hwrite, hh.next⟩, ⟨.inl, fun _ => .inl⟩⟩
      split at hrun
      · cases hrun
      · cases hrun
        exact ⟨rfl, ⟨⟨_, hafter⟩, hwrite, hh.next⟩, ⟨.inl, fun _ => .inl⟩⟩
    · cases hrun
      exact ⟨rfl, ⟨⟨_, hafter⟩, hwrite, hh.next⟩, ⟨.inl, fun _ => .inl⟩⟩
  · obtain rfl := hpc
    simp only [Tx.run] at hrun
    split at hrun
    · cases hrun
    split at hrun
    · cases hrun
    cases hrun
    refine ⟨rfl, ⟨_, rfl, hh.guard, hh.holds, hh.left.mono fun user heq => ?_⟩, ⟨.inl, fun _ => .inl⟩⟩
    -- the row as it is written differs from `after` in its source only
    obtain rfl := Option.some.inj (hafter.symm.trans heq)
    exact ⟨_, rfl, ⟨fun h => h, fun h => h, fun h => h⟩⟩

/-- A statement of `updateUser` or `deleteUser`, beside `lockTargetUser`. -/
theorem Taking.run (hop : t.op.target = some id) (h : Taking settings db.users t id)
    (hne : ∀ named, t.pc = .target named → pick ≠ .next)
    (hrun : t.run toLowerCase settings db others pick = some (some t')) :
    t'.op = t.op ∧ Taking settings db.users t' id ∧ Gains others t t' := by
  have haddress : t.op.address = none := by
    rcases target_eq_some hop with ⟨patch, hop⟩ | hop <;> rw [hop, Op.address]
  cases pick with
  | error => cases hrun
  | id id' => simp [Tx.run, haddress] at hrun
  | next =>
    cases hpc : t.pc with
    | named =>
      obtain ⟨he, hguard⟩ : Early t ∧ t.guard = false := by simpa only [Taking, hpc] using h
      rcases target_eq_some hop with ⟨patch, hop⟩ | hop
      all_goals
        simp only [Tx.run, hpc, hop] at hrun
        cases hrun
        exact ⟨hop.symm, ⟨⟨he.row, he.write⟩, hguard⟩, .inl, fun _ => .inl⟩
    | lock todo named =>
      obtain ⟨he, hguard⟩ : Early t ∧ t.guard = false := by simpa only [Taking, hpc] using h
      cases todo with
      | nil =>
        have hlocked : t.op.locked settings named = .guard named := by
          rcases target_eq_some hop with ⟨patch, hop⟩ | hop <;> rw [hop, Op.locked]
        simp only [Tx.run, hpc, hlocked] at hrun
        cases hrun
        exact ⟨rfl, ⟨⟨he.row, he.write⟩, hguard⟩, .refl⟩
      | cons a todo =>
        simp only [Tx.run, hpc] at hrun
        split at hrun
        · cases hrun
        · cases hrun
          exact ⟨rfl, ⟨⟨he.row, he.write⟩, hguard⟩, .inl, fun _ => .inl⟩
    | guard named =>
      obtain ⟨he, -⟩ : Early t ∧ t.guard = false := by simpa only [Taking, hpc] using h
      simp only [Tx.run, hpc] at hrun
      split at hrun
      · cases hrun
      next hfree =>
      cases hrun
      exact ⟨rfl, ⟨⟨he.row, he.write⟩, rfl⟩, fun _ => .inr (not_any hfree), fun _ => .inl⟩
    | target named => exact absurd rfl (hne named hpc)
    | taken current | clear current | add current | update current =>
      rcases target_eq_some hop with ⟨patch, hop⟩ | hop
      · have hat : t.pc = .taken current ∨ t.pc = .clear current ∨ t.pc = .add current ∨ t.pc = .update current := by simp [hpc]
        exact h.run_update hop hat hrun
      · simp [Taking, hpc, hop, after] at h
    | delete current named =>
      obtain ⟨-, hh⟩ : t.write = none ∧ Holder settings db.users t id none := by simpa only [Taking, hpc] using h
      simp only [Tx.run, hpc] at hrun
      cases hrun
      exact ⟨rfl, ⟨none, rfl, hh.next⟩, .inl, fun _ => .inl⟩
    | bury current named =>
      obtain ⟨row, hwrite, hh⟩ : ∃ row, t.write = some row ∧ Holder settings db.users t id row := by
        simpa only [Taking, hpc] using h
      simp only [Tx.run, hpc] at hrun
      split at hrun
      · split at hrun
        · cases hrun
        · cases hrun
          exact ⟨rfl, ⟨row, hwrite, hh.next⟩, .inl, fun _ => .inl⟩
      · cases hrun
        exact ⟨rfl, ⟨row, hwrite, hh.next⟩, .inl, fun _ => .inl⟩
    | commit => simp [Tx.run, hpc] at hrun
    | known | allow | tombstoned | find | claim | claimRow | insert | settle => simp [Taking, hpc] at h

/-! ## `disableUsersByEmail` -/

/-- What holds of it at a statement. -/
structure Walks (settings : Settings) (users : UserTable) (d : Disabling) : Prop where
  idle : d.guard = false → d.pc = .lockAdminGuard ∧ d.rows = [] ∧ d.disabled = []
  disabled : ∀ id ∈ d.disabled, id ∈ d.rows
  admin : d.guard = true → ActiveAdmin settings (d.users users)
  count : ∀ email id, d.pc = .count email id → id ∈ d.rows
  disable : ∀ id, d.pc = .disable id → id ∈ d.rows ∧ Left settings (d.users users) id none

theorem lookup_users : (d.users users).lookup id =
    (users.lookup id).map fun user => if id ∈ d.disabled then { user with disabled := true } else user := by
  simp [Disabling.users]

theorem Above.view (h : Above users users') : Above (d.users users) (d.users users') := by
  intro id user hid
  rw [lookup_users] at hid
  obtain ⟨old, hold, rfl⟩ := Option.map_eq_some_iff.mp hid
  obtain ⟨new, hnew, hb⟩ := h id old hold
  refine ⟨_, by rw [lookup_users, hnew]; rfl, ?_⟩
  split
  · exact ⟨hb.is_admin, fun _ => rfl, hb.email⟩
  · exact hb

/-- What is left when a row counts as none is left when it is disabled. -/
theorem Left.disable (h : Left settings (d.users users) id none) :
    ActiveAdmin settings (Disabling.users { d with disabled := id :: d.disabled } users) := by
  obtain ⟨k, user, hk, hc⟩ := h
  by_cases heq : k = id
  · rw [if_pos heq] at hk
    cases hk
  · rw [if_neg heq, lookup_users] at hk
    exact ⟨k, user, by rw [lookup_users]; simpa [heq] using hk, hc⟩

/-- What a statement adds to the locks was free. -/
structure Frees (others held held' : List Tx) : Prop where
  guard : ∀ t' ∈ held', t'.guard = true → (∃ t ∈ held, t.guard = true) ∨ ∀ u ∈ others, u.guard = false
  row : ∀ t' ∈ held', ∀ id, t'.row = some id → (∃ t ∈ held, t.row = some id) ∨ ∀ u ∈ others, u.row ≠ some id

theorem Gains.frees (h : Gains others t t') : Frees others [t] [t'] where
  guard u hu hg := by
    obtain rfl := List.mem_singleton.mp hu
    exact (h.guard hg).imp_left fun hg => ⟨t, List.mem_singleton_self t, hg⟩
  row u hu id hid := by
    obtain rfl := List.mem_singleton.mp hu
    exact (h.row id hid).imp_left fun hid => ⟨t, List.mem_singleton_self t, hid⟩

theorem Frees.nil {held : List Tx} : Frees others held [] where
  guard _ ht := absurd ht List.not_mem_nil
  row _ ht := absurd ht List.not_mem_nil

theorem guard_of_held (ht : t ∈ d.held) (hg : t.guard = true) : d.guard = true := by
  rcases List.mem_cons.mp ht with rfl | ht
  · exact hg
  · obtain ⟨id, -, rfl⟩ := List.mem_map.mp ht
    cases hg

theorem exists_guard (h : d.guard = true) : ∃ t ∈ d.held, t.guard = true := ⟨_, List.mem_cons_self, h⟩

theorem row_of_held (ht : t ∈ d.held) (hid : t.row = some id) : id ∈ d.rows := by
  rcases List.mem_cons.mp ht with rfl | ht
  · cases hid
  · obtain ⟨id', hid', rfl⟩ := List.mem_map.mp ht
    rwa [← Option.some.inj hid]

theorem exists_row (h : id ∈ d.rows) : ∃ t ∈ d.held, t.row = some id :=
  ⟨_, List.mem_cons_of_mem _ (List.mem_map_of_mem h), rfl⟩

theorem Frees.disabling (hg : d'.guard = true → d.guard = true ∨ ∀ u ∈ others, u.guard = false)
    (hr : ∀ id ∈ d'.rows, id ∈ d.rows ∨ ∀ u ∈ others, u.row ≠ some id) : Frees others d.held d'.held where
  guard _ ht hguard := (hg (guard_of_held ht hguard)).imp_left exists_guard
  row _ ht id hid := (hr id (row_of_held ht hid)).imp_left exists_row

theorem Walks.guard_of_pc (h : Walks settings users d) (hpc : d.pc ≠ .lockAdminGuard) : d.guard = true := by
  cases hg : d.guard with
  | true => rfl
  | false => exact absurd (h.idle hg).1 hpc

theorem Walks.run (h : Walks settings db.users d) (hadmin : ActiveAdmin settings db.users)
    (hrun : d.run toLowerCase settings db others = some d') : Walks settings db.users d' ∧ Frees others d.held d'.held := by
  simp only [Disabling.run] at hrun
  split at hrun
  next hpc =>
    split at hrun
    · cases hrun
    next hfree =>
    cases hrun
    refine ⟨⟨nofun, h.disabled, fun _ => ?_, nofun, nofun⟩, .disabling (fun _ => .inr (not_any hfree)) fun id => .inl⟩
    cases hg : d.guard with
    | true => exact h.admin hg
    | false =>
      obtain ⟨id, user, hid, hc⟩ := hadmin
      refine ⟨id, user, ?_, hc⟩
      have hd : d.disabled = [] := (h.idle hg).2.2
      simp [lookup_users, hd, hid]
  next hpc =>
    have hguard := h.guard_of_pc (by rw [hpc]; exact nofun)
    have hskip {todo : List String} : Walks settings db.users { d with todo } ∧ Frees others d.held (Disabling.held { d with todo }) :=
      ⟨⟨h.idle, h.disabled, h.admin, h.count, h.disable⟩, .disabling .inl fun _ => .inl⟩
    split at hrun
    · cases hrun
    split at hrun
    · cases hrun
      exact hskip
    split at hrun
    · cases hrun
      exact hskip
    next id current hfound =>
    split at hrun
    · cases hrun
    next hfree =>
    cases hrun
    obtain ⟨hid, hp⟩ := Table.find?_some hfound
    refine ⟨⟨fun hg => ?_, fun k hk => List.mem_cons_of_mem _ (h.disabled k hk), h.admin, fun email' id' heq => ?_,
      fun id' heq => ?_⟩, .disabling .inl fun k hk => ?_⟩
    · cases hguard.symm.trans hg
    · split at heq
      · cases heq
        exact List.mem_cons_self
      · cases heq
    · split at heq
      · cases heq
      next hcounts =>
      cases heq
      obtain ⟨k, user, hk, hc⟩ := h.admin hguard
      refine ⟨List.mem_cons_self, k, user, ?_, hc⟩
      rw [if_neg]
      · exact hk
      · rintro rfl
        obtain rfl := Option.some.inj (hid.symm.trans hk)
        exact hcounts hc
    · rcases List.mem_cons.mp hk with rfl | hk
      · exact .inr (free_row hfree)
      · exact .inl hk
  next email id hpc =>
    have hguard := h.guard_of_pc (by rw [hpc]; exact nofun)
    split at hrun
    next hother =>
      cases hrun
      refine ⟨⟨fun hg => ?_, h.disabled, h.admin, nofun, fun id' heq => ?_⟩, .disabling .inl fun _ => .inl⟩
      · cases hguard.symm.trans hg
      · cases heq
        exact ⟨h.count email id hpc, .of_other hother⟩
    next =>
      cases hrun
      refine ⟨⟨fun hg => ?_, h.disabled, h.admin, nofun, nofun⟩, .disabling .inl fun _ => .inl⟩
      cases hguard.symm.trans hg
  next id hpc =>
    have hguard := h.guard_of_pc (by rw [hpc]; exact nofun)
    cases hrun
    obtain ⟨hrow, hleft⟩ := h.disable id hpc
    refine ⟨⟨fun hg => ?_, fun k hk => ?_, fun _ => hleft.disable, nofun, nofun⟩, .disabling .inl fun _ => .inl⟩
    · cases hguard.symm.trans hg
    · rcases List.mem_cons.mp hk with rfl | hk
      · exact hrow
      · exact h.disabled k hk

/-! ## One action -/

/-- What holds of an action, whatever it waits for. -/
def Action.Fits (settings : Settings) (users : UserTable) : Action → Prop
  | .panel t => TxFits settings users t
  | .checking t id => t.op.target = some id ∧ t.row = some id ∧ t.guard = true ∧
      ∀ users', otherActiveAdminExists users' id settings.googleMode = true → Taking settings users' t id
  | .disabling d => Walks settings users d
  | .committed | .rolledBack => True

variable {action action' : Action}

theorem Action.fits_rolledBack : Action.rolledBack.Fits settings users := trivial

/-- The row that `lockTargetUser` finds. -/
theorem checked_taking (hop : t.op.target = some id) (hwrite : t.write = none) (hguard : t.guard = true)
    (hleft : Left settings users id (after t.op current)) : Taking settings users (checked t id named current) id := by
  rcases target_eq_some hop with ⟨patch, hop'⟩ | hop'
  · have hafter : after t.op current = some (patch.after current) := by rw [hop', after]
    simp only [checked, hafter]
    exact ⟨⟨_, hafter⟩, hwrite, hguard, rfl, hleft⟩
  · have hafter : after t.op current = none := by
      rw [hop']
      rfl
    simp only [checked, hafter]
    exact ⟨hwrite, hguard, rfl, hafter ▸ hleft⟩

theorem lockTargetUser_fits (hop : t.op.target = some id) (hearly : Early t) (hguard : t.guard = true)
    (hadmin : ActiveAdmin settings db.users) (hrun : Action.lockTargetUser settings db others t id named = some action') :
    action'.Fits settings db.users ∧ Frees others [t] action'.held := by
  unfold Action.lockTargetUser at hrun
  split at hrun
  · cases hrun
  next hfree =>
  have hfrees {current : User} : Frees others [t] [checked t id named current] :=
    Gains.frees ⟨.inl, fun id' hid' => .inr (Option.some.inj hid' ▸ free_row hfree)⟩
  split at hrun
  · cases hrun
    exact ⟨Action.fits_rolledBack, .nil⟩
  next current hid =>
  split at hrun
  · cases hrun
    exact ⟨Action.fits_rolledBack, .nil⟩
  split at hrun
  · cases hrun
    exact ⟨⟨hop, rfl, hguard, fun users' hother => checked_taking hop hearly.write hguard (.of_other hother)⟩, hfrees⟩
  next hkeep =>
    cases hrun
    have hleft := Left.of_not_takesAway hadmin hid (Bool.eq_false_iff.mpr hkeep)
    exact ⟨.inr ⟨id, hop, checked_taking hop hearly.write hguard hleft⟩, hfrees⟩

theorem TxFits.run (h : TxFits settings db.users t) (hne : ∀ named id, t.pc = .target named → t.op.target = some id → pick ≠ .next)
    (hrun : t.run toLowerCase settings db others pick = some (some t')) : TxFits settings db.users t' ∧ Gains others t t' := by
  rcases h with h | ⟨id, hop, h⟩
  · obtain ⟨hr, hg⟩ := h.run hrun
    exact ⟨.inl hr, hg⟩
  · obtain ⟨hop', ht, hg⟩ := h.run hop (fun named hpc => hne named _ hpc hop) hrun
    exact ⟨.inr ⟨id, hop' ▸ hop, ht⟩, hg⟩

theorem Action.Fits.run (h : action.Fits settings db.users) (hadmin : ActiveAdmin settings db.users)
    (hrun : action.run toLowerCase settings db others pick = some action') :
    action'.Fits settings db.users ∧ Frees others action.held action'.held := by
  cases action with
  | panel t =>
    simp only [Action.run] at hrun
    split at hrun
    next named id hpc hop =>
      rcases show TxFits settings db.users t from h with h | ⟨id', -, h⟩
      · cases h.target.symm.trans hop
      · obtain ⟨hearly, hguard⟩ : Early t ∧ t.guard = true := by simpa only [Taking, hpc] using h
        exact lockTargetUser_fits hop hearly hguard hadmin hrun
    next hne =>
      obtain ⟨o, ho, rfl⟩ := Option.map_eq_some_iff.mp hrun
      cases o with
      | none => exact ⟨Action.fits_rolledBack, .nil⟩
      | some t' =>
        obtain ⟨ht, hg⟩ := TxFits.run h (fun named id hpc hop hpick => hne named id hpc hop hpick) ho
        exact ⟨ht, hg.frees⟩
  | checking t id =>
    obtain ⟨hop, hrow, hguard, hgoes⟩ := h
    simp only [Action.run] at hrun
    cases pick with
    | next =>
      cases hrun
      split
      next hother => exact ⟨.inr ⟨id, hop, hgoes _ hother⟩, Gains.frees ⟨.inl, fun _ => .inl⟩⟩
      next => exact ⟨Action.fits_rolledBack, .nil⟩
    | id => cases hrun
    | error =>
      cases hrun
      exact ⟨Action.fits_rolledBack, .nil⟩
  | disabling d =>
    simp only [Action.run] at hrun
    cases pick with
    | next =>
      obtain ⟨d', hd, rfl⟩ := Option.map_eq_some_iff.mp hrun
      exact Walks.run h hadmin hd
    | id => cases hrun
    | error =>
      cases hrun
      exact ⟨Action.fits_rolledBack, .nil⟩
  | committed | rolledBack => cases hrun

/-! ## A commit -/

theorem users_of_none (h : t.write = none) : t.users users = users := by
  unfold Tx.users
  rw [h]
  split
  · cases ‹none = some _›
  · cases ‹none = some _›
  · rfl

theorem lookup_written (hrow : t.row = some id) (hwrite : t.write = some row) {k : UserId} :
    (t.users users).lookup k = if k = id then row else users.lookup k := by
  unfold Tx.users
  rw [hrow, hwrite]
  cases row with
  | some user => rw [Table.lookup_insert']
  | none => rw [Table.lookup_erase']

theorem Raising.above (h : Raising users t) : Above users (t.users users) := by
  cases hwrite : t.write with
  | none =>
    rw [users_of_none hwrite]
    exact fun id user hid => ⟨user, hid, .refl⟩
  | some row =>
    obtain ⟨id, user, hrow, rfl, hr⟩ := h.write row hwrite
    intro k old hold
    rw [lookup_written hrow hwrite]
    by_cases heq : k = id
    · exact ⟨user, by rw [if_pos heq], hr old (heq ▸ hold)⟩
    · exact ⟨old, by rwa [if_neg heq], .refl⟩

/-- What a commit leaves to the others. -/
structure Commits (settings : Settings) (db db' : Db) (held : List Tx) : Prop where
  admin : ActiveAdmin settings db'.users
  above : (∀ t ∈ held, t.guard = false) → Above db.users db'.users
  row : ∀ id, (∀ t ∈ held, t.row ≠ some id) → db'.users.lookup id = db.users.lookup id

theorem Action.Fits.commit (h : action.Fits settings db.users) (hadmin : ActiveAdmin settings db.users)
    (hcommit : action.commit db = some db') : Commits settings db db' action.held := by
  cases action with
  | panel t =>
    simp only [Action.commit] at hcommit
    split at hcommit
    next hpc =>
      cases hcommit
      rcases show TxFits settings db.users t from h with h | ⟨id, hop, h⟩
      · refine ⟨hadmin.above h.above, fun _ => h.above, fun id hid => ?_⟩
        show (t.users db.users).lookup id = _
        cases hwrite : t.write with
        | none => rw [users_of_none hwrite]
        | some row =>
          obtain ⟨id', user, hrow, -, -⟩ := h.write row hwrite
          rw [lookup_written hrow hwrite, if_neg]
          rintro rfl
          exact hid t (List.mem_singleton_self t) hrow
      · obtain ⟨row, hwrite, hh⟩ : ∃ row, t.write = some row ∧ Holder settings db.users t id row := by
          simpa only [Taking, hpc] using h
        refine ⟨?_, fun hg => ?_, fun id hid => ?_⟩
        · obtain ⟨k, user, hk, hc⟩ := hh.left
          exact ⟨k, user, (lookup_written hh.holds hwrite).trans hk, hc⟩
        · cases (hg t (List.mem_singleton_self t)).symm.trans hh.guard
        · refine (lookup_written hh.holds hwrite).trans (if_neg ?_)
          rintro rfl
          exact hid t (List.mem_singleton_self t) hh.holds
    next => cases hcommit
  | disabling d =>
    simp only [Action.commit] at hcommit
    split at hcommit
    next hpc htodo =>
      cases hcommit
      have h : Walks settings db.users d := h
      have hguard := h.guard_of_pc (by rw [hpc]; exact nofun)
      refine ⟨h.admin hguard, fun hg => ?_, fun id hid => ?_⟩
      · obtain ⟨t, ht, htrue⟩ := exists_guard hguard
        cases (hg t ht).symm.trans htrue
      · have hnot : id ∉ d.disabled := fun hin => by
          obtain ⟨t, ht, hrow⟩ := exists_row (h.disabled id hin)
          exact hid t ht hrow
        show (d.users db.users).lookup id = _
        simp [lookup_users, hnot]
    next => cases hcommit
  | checking | committed | rolledBack => cases hcommit

/-- A commit of another action keeps what holds of this one: the rows it holds are unchanged, and the others are raised while it holds
the guard. -/
theorem Action.Fits.keeps (h : action.Fits settings users)
    (hrow : ∀ id, (∃ t ∈ action.held, t.row = some id) → users'.lookup id = users.lookup id)
    (hguard : (∃ t ∈ action.held, t.guard = true) → Above users users') : action.Fits settings users' := by
  cases action with
  | panel t =>
    have hmem : t ∈ (Action.panel t).held := List.mem_singleton_self t
    rcases show TxFits settings users t from h with h | ⟨id, hop, h⟩
    · refine .inl ⟨h.target, h.guard, h.pc, fun row hwrite => ?_, h.settle⟩
      obtain ⟨id, user, hid, heq, hr⟩ := h.write row hwrite
      exact ⟨id, user, hid, heq, fun old hold => hr old ((hrow id ⟨t, hmem, hid⟩).symm.trans hold)⟩
    · have hh {row : Option User} (hh : Holder settings users t id row) : Holder settings users' t id row :=
        ⟨hh.guard, hh.holds, hh.left.above (hguard ⟨t, hmem, hh.guard⟩)⟩
      refine .inr ⟨id, hop, ?_⟩
      cases hpc : t.pc with
      | named | lock | guard | target => simpa only [Taking, hpc] using h
      | taken | clear | add | update =>
        simp only [Taking, hpc] at h ⊢
        exact ⟨h.1, h.2.1, hh h.2.2⟩
      | delete =>
        simp only [Taking, hpc] at h ⊢
        exact ⟨h.1, hh h.2⟩
      | bury | commit =>
        simp only [Taking, hpc] at h ⊢
        obtain ⟨row, hwrite, hhold⟩ := h
        exact ⟨row, hwrite, hh hhold⟩
      | known | allow | tombstoned | find | claim | claimRow | insert | settle => simp [Taking, hpc] at h
  | checking t id => exact h
  | disabling d =>
    have h : Walks settings users d := h
    refine ⟨h.idle, h.disabled, fun hg => (h.admin hg).above (hguard (exists_guard hg)).view, h.count, fun id hpc => ?_⟩
    have hg := h.guard_of_pc (by rw [hpc]; exact nofun)
    exact ⟨(h.disable id hpc).1, (h.disable id hpc).2.above (hguard (exists_guard hg)).view⟩
  | committed | rolledBack => trivial

/-! ## The system -/

/-- Two actions hold neither the guard nor a row together. -/
structure Exclude (held held' : List Tx) : Prop where
  guard : ∀ t ∈ held, ∀ u ∈ held', t.guard = true → u.guard = false
  row : ∀ t ∈ held, ∀ u ∈ held', ∀ id, t.row = some id → u.row ≠ some id

theorem Exclude.symm {held held' : List Tx} (h : Exclude held held') : Exclude held' held where
  guard u hu t ht hg := by
    cases hg' : t.guard with
    | false => rfl
    | true => cases hg.symm.trans (h.guard t ht u hu hg')
  row u hu t ht id hid hid' := h.row t ht u hu id hid' hid

theorem Exclude.nil {held : List Tx} : Exclude [] held where
  guard _ ht := absurd ht List.not_mem_nil
  row _ ht := absurd ht List.not_mem_nil

structure Inv (settings : Settings) (s : State) : Prop where
  admin : ActiveAdmin settings s.db.users
  fits : ∀ (i : Nat) action, s.actions[i]? = some action → action.Fits settings s.db.users
  exclude : ∀ (i j : Nat) action action', i ≠ j → s.actions[i]? = some action → s.actions[j]? = some action' →
    Exclude action.held action'.held
  commits : ∀ c ∈ s.commits, ActiveAdmin settings c.2.users ∧ s.actions[c.1]? = some .committed

theorem mem_others {i : Nat} : u ∈ s.others i ↔ ∃ j action, i ≠ j ∧ s.actions[j]? = some action ∧ u ∈ action.held := by
  rw [State.others, List.mem_flatMap]
  constructor
  · rintro ⟨action, hmem, hu⟩
    obtain ⟨j, hj⟩ := List.mem_iff_getElem?.mp hmem
    rw [List.getElem?_set] at hj
    split at hj
    next hij =>
      split at hj
      · cases hj
        cases hu
      · cases hj
    next hij => exact ⟨j, action, hij, hj, hu⟩
  · rintro ⟨j, action, hij, hj, hu⟩
    exact ⟨action, List.mem_iff_getElem?.mpr ⟨j, by rwa [List.getElem?_set_ne hij]⟩, hu⟩

/-- An action moves, and the others keep what holds of them. -/
theorem Inv.set (h : Inv settings s) {i : Nat} (hi : s.actions[i]? = some action) (hopen : action ≠ .committed)
    {commits : List (Nat × Db)} (hadmin : ActiveAdmin settings db'.users) (hfits : action'.Fits settings db'.users)
    (hkeeps : ∀ (j : Nat) b, i ≠ j → s.actions[j]? = some b → b.Fits settings db'.users)
    (hexclude : ∀ (j : Nat) b, i ≠ j → s.actions[j]? = some b → Exclude action'.held b.held)
    (hcommits : ∀ c ∈ commits, c ∈ s.commits ∨ ActiveAdmin settings c.2.users ∧ c.1 = i ∧ action' = .committed) :
    Inv settings { db := db', actions := s.actions.set i action', commits } where
  admin := hadmin
  fits j b hb := by
    rcases (Agents.getElem?_set_some hi).mp hb with ⟨-, rfl⟩ | ⟨hij, hj⟩
    · exact hfits
    · exact hkeeps j b hij hj
  exclude j k b b' hjk hb hb' := by
    rcases (Agents.getElem?_set_some hi).mp hb with ⟨rfl, rfl⟩ | ⟨hij, hj⟩
    · rcases (Agents.getElem?_set_some hi).mp hb' with ⟨rfl, -⟩ | ⟨hik, hk⟩
      · exact absurd rfl hjk
      · exact hexclude k b' hik hk
    · rcases (Agents.getElem?_set_some hi).mp hb' with ⟨rfl, rfl⟩ | ⟨hik, hk⟩
      · exact (hexclude j b hij hj).symm
      · exact h.exclude j k b b' hjk hj hk
  commits c hc := by
    rcases hcommits c hc with hold | ⟨hadmin, rfl, rfl⟩
    · obtain ⟨hadmin, hat⟩ := h.commits c hold
      refine ⟨hadmin, (Agents.getElem?_set_some hi).mpr (.inr ⟨?_, hat⟩)⟩
      rintro rfl
      exact hopen (Option.some.inj (hi.symm.trans hat))
    · exact ⟨hadmin, (Agents.getElem?_set_some hi).mpr (.inl ⟨rfl, rfl⟩)⟩

theorem Inv.start (h : Inv settings s) (hfits : action.Fits settings s.db.users) (hheld : ∀ held, Exclude action.held held) :
    Inv settings { s with actions := s.actions ++ [action] } where
  admin := h.admin
  fits i b hb := by
    rcases Agents.getElem?_append_some.mp hb with hb | ⟨-, rfl⟩
    · exact h.fits i b hb
    · exact hfits
  exclude i j b b' hij hb hb' := by
    rcases Agents.getElem?_append_some.mp hb with hb | ⟨-, rfl⟩
    · rcases Agents.getElem?_append_some.mp hb' with hb' | ⟨-, rfl⟩
      · exact h.exclude i j b b' hij hb hb'
      · exact (hheld b.held).symm
    · exact hheld b'.held
  commits c hc := ⟨(h.commits c hc).1, Agents.getElem?_append_some.mpr (.inl (h.commits c hc).2)⟩

theorem begin_fits : TxFits settings users op.begin := by
  have hf : Fresh op.begin := begin_fresh.1
  cases op with
  | createUser | allowEmail | importUser | resolveVerifiedUser => exact .inl ⟨rfl, rfl, rfl, nofun, nofun⟩
  | deleteUser => exact .inr ⟨_, rfl, ⟨rfl, rfl⟩, rfl⟩
  | updateUser id patch =>
    refine .inr ⟨id, rfl, ?_⟩
    rw [Op.begin, Taking]
    cases patch.email.isSome
    · exact ⟨⟨rfl, rfl⟩, rfl⟩
    · exact ⟨⟨rfl, rfl⟩, rfl⟩

theorem begin_exclude {held : List Tx} : Exclude (Action.held (.panel op.begin)) held := by
  have hmem : ∀ t ∈ Action.held (.panel op.begin), t.guard = false ∧ t.row = none := by
    intro t ht
    obtain rfl := List.mem_singleton.mp ht
    exact ⟨by cases op <;> rfl, begin_fresh.1.row⟩
  refine ⟨fun t ht u _ hg => ?_, fun t ht u _ id hid => ?_⟩
  · cases (hmem t ht).1.symm.trans hg
  · cases (hmem t ht).2.symm.trans hid

theorem Inv.frees (h : Inv settings s) {i j : Nat} {b : Action} (hi : s.actions[i]? = some action)
    (hf : Frees (s.others i) action.held action'.held) (hij : i ≠ j) (hj : s.actions[j]? = some b) : Exclude action'.held b.held where
  guard t' ht' u hu hg := by
    rcases hf.guard t' ht' hg with ⟨t, ht, hg⟩ | hfree
    · exact (h.exclude i j action b hij hi hj).guard t ht u hu hg
    · exact hfree u (mem_others.mpr ⟨j, b, hij, hj, hu⟩)
  row t' ht' u hu id hid := by
    rcases hf.row t' ht' id hid with ⟨t, ht, hid⟩ | hfree
    · exact (h.exclude i j action b hij hi hj).row t ht u hu id hid
    · exact hfree u (mem_others.mpr ⟨j, b, hij, hj, hu⟩)

theorem inv_step {l : Label} (h : Inv settings s) (hstep : step toLowerCase settings s l = some s') : Inv settings s' := by
  cases l with
  | start op =>
    obtain rfl := Option.some.inj hstep
    exact h.start begin_fits fun _ => begin_exclude
  | startDisabling emails =>
    obtain rfl := Option.some.inj hstep
    refine h.start ⟨fun _ => ⟨rfl, rfl, rfl⟩, nofun, nofun, nofun, nofun⟩ fun held => ⟨fun t ht u _ hg => ?_, fun t ht u _ id hid => ?_⟩
    · cases guard_of_held ht hg
    · cases row_of_held ht hid
  | policy emails =>
    obtain rfl := Option.some.inj hstep
    exact ⟨h.admin, h.fits, h.exclude, h.commits⟩
  | run i pick =>
    obtain ⟨action, hi, hstep⟩ := Option.bind_eq_some_iff.mp hstep
    obtain ⟨action', hrun, hs'⟩ := Option.bind_eq_some_iff.mp hstep
    obtain rfl := Option.some.inj hs'
    obtain ⟨hfits, hfrees⟩ := (h.fits i action hi).run h.admin hrun
    refine h.set hi ?_ h.admin hfits (fun j b _ hj => h.fits j b hj) (fun j b hij hj => h.frees hi hfrees hij hj) fun c => .inl
    rintro rfl
    cases hrun
  | commit i =>
    obtain ⟨action, hi, hstep⟩ := Option.bind_eq_some_iff.mp hstep
    obtain ⟨db, hcommit, hs'⟩ := Option.bind_eq_some_iff.mp hstep
    obtain rfl := Option.some.inj hs'
    have hc := (h.fits i action hi).commit h.admin hcommit
    refine h.set hi ?_ hc.admin trivial (fun j b hij hj => ?_) (fun _ _ _ _ => .nil) fun c hin => ?_
    · rintro rfl
      cases hcommit
    · have hex := h.exclude i j action b hij hi hj
      refine (h.fits j b hj).keeps ?_ ?_
      · rintro id ⟨u, hu, hid⟩
        exact hc.row id fun t ht hrow => hex.row t ht u hu id hrow hid
      · rintro ⟨u, hu, hg⟩
        exact hc.above fun t ht => hex.symm.guard u hu t ht hg
    · rcases List.mem_cons.mp hin with rfl | hin
      · exact .inr ⟨hc.admin, rfl, rfl⟩
      · exact .inl hin

theorem inv_invariant : (system toLowerCase settings).Invariant TransitionSystem.anyStep (Inv settings) where
  init := by
    intro s hi
    have hnone {i : Nat} {action : Action} (h : s.actions[i]? = some action) : False := by
      rw [hi.actions] at h
      cases h
    refine ⟨hi.admin, fun i action h => (hnone h).elim, fun i j _ _ _ h => (hnone h).elim, fun c hc => ?_⟩
    rw [hi.commits] at hc
    cases hc
  step h _ := inv_step h

/-- The users and the tombstones are those of the last commit. -/
def Committed (s₀ s : State) : Prop :=
  s.db.users = (s.commits.head?.elim s₀.db (·.2)).users ∧ s.db.tombstones = (s.commits.head?.elim s₀.db (·.2)).tombstones

theorem committed_step {s₀ : State} {l : Label} (h : Committed s₀ s) (hstep : step toLowerCase settings s l = some s') : Committed s₀ s' := by
  cases l with
  | start | startDisabling | policy =>
    obtain rfl := Option.some.inj hstep
    exact h
  | run i pick =>
    obtain ⟨action, -, hstep⟩ := Option.bind_eq_some_iff.mp hstep
    obtain ⟨action', -, hs'⟩ := Option.bind_eq_some_iff.mp hstep
    obtain rfl := Option.some.inj hs'
    exact h
  | commit i =>
    obtain ⟨action, -, hstep⟩ := Option.bind_eq_some_iff.mp hstep
    obtain ⟨db, -, hs'⟩ := Option.bind_eq_some_iff.mp hstep
    obtain rfl := Option.some.inj hs'
    exact ⟨rfl, rfl⟩

/-- A refused action stays as it is. -/
theorem rolledBack_stable (i : Nat) :
    (system toLowerCase settings).Stable TransitionSystem.anyStep fun s => s.actions[i]? = some .rolledBack := by
  intro s l s' hi _ hstep
  have hset {j : Nat} {action action' : Action} (hj : s.actions[j]? = some action) (hne : action ≠ .rolledBack) :
      (s.actions.set j action')[i]? = some .rolledBack := by
    refine (Agents.getElem?_set_some hj).mpr (.inr ⟨?_, hi⟩)
    rintro rfl
    exact hne (Option.some.inj (hj.symm.trans hi))
  cases l with
  | start | startDisabling =>
    obtain rfl := Option.some.inj hstep
    exact Agents.getElem?_append_some.mpr (.inl hi)
  | policy =>
    obtain rfl := Option.some.inj hstep
    exact hi
  | run j pick =>
    obtain ⟨action, hj, hstep⟩ := Option.bind_eq_some_iff.mp hstep
    obtain ⟨action', hrun, hs'⟩ := Option.bind_eq_some_iff.mp hstep
    obtain rfl := Option.some.inj hs'
    refine hset hj ?_
    rintro rfl
    cases hrun
  | commit j =>
    obtain ⟨action, hj, hstep⟩ := Option.bind_eq_some_iff.mp hstep
    obtain ⟨db, hcommit, hs'⟩ := Option.bind_eq_some_iff.mp hstep
    obtain rfl := Option.some.inj hs'
    refine hset hj ?_
    rintro rfl
    cases hcommit

/-- Every committed state has an active administrator; the users and the tombstones are those of the last commit; and an action that was
refused commits nothing, then or later. -/
theorem last_admin_stays {s₀ : State} (hinit : Initial settings s₀) (hrun : (system toLowerCase settings).Run TransitionSystem.anyStep s₀ s) :
    ActiveAdmin settings s.db.users ∧ (∀ c ∈ s.commits, ActiveAdmin settings c.2.users) ∧ Committed s₀ s ∧
    ∀ i, s.actions[i]? = some .rolledBack → ∀ s', (system toLowerCase settings).Run TransitionSystem.anyStep s s' → ∀ c ∈ s'.commits, c.1 ≠ i := by
  have hinv {s : State} (hrun : (system toLowerCase settings).Run TransitionSystem.anyStep s₀ s) : Inv settings s :=
    inv_invariant.reachesUnder ⟨s₀, hinit, hrun⟩
  refine ⟨(hinv hrun).admin, fun c hc => ((hinv hrun).commits c hc).1, ?_, fun i hi s' hrun' c hc heq => ?_⟩
  · have hstable : (system toLowerCase settings).Stable TransitionSystem.anyStep (Committed s₀) := fun _ _ _ h _ hstep => committed_step h hstep
    refine hstable.run ?_ hrun
    rw [Committed, hinit.commits]
    exact ⟨rfl, rfl⟩
  · have hback := (rolledBack_stable i).run hi hrun'
    have hcommitted := ((hinv (hrun.trans hrun')).commits c hc).2
    rw [heq] at hcommitted
    cases hback.symm.trans hcommitted

def twoAdmins : State where
  db := {
    users := ((∅ : UserTable).insert 1 { username := "anna", email := some "anna@example.com", is_admin := true }).insert 2
      { username := "boris", email := some "boris@example.com", is_admin := true }
    tombstones := ∅ }

theorem twoAdmins_initial : Initial {} twoAdmins where
  admin := ⟨1, _, rfl, rfl⟩
  actions := rfl
  commits := rfl

/-- Action `i` was refused. -/
def State.refuses (s : State) (i : Nat) : Bool :=
  match s.actions[i]? with
  | some .rolledBack => true
  | _ => false

theorem refuses_iff {i : Nat} : s.refuses i = true ↔ s.actions[i]? = some .rolledBack := by
  unfold State.refuses
  split
  next h => simp [h]
  next h => simpa using h

/-- Two actions at once, each to take one of two administrators away: the one that waited for the guard is refused. -/
theorem last_admin_stays_racing : ∃ s : State, (system (fun s => s) {}).Run TransitionSystem.anyStep twoAdmins s ∧
    s.actions[1]? = some .rolledBack ∧ ActiveAdmin {} s.db.users ∧ ∀ c ∈ s.commits, c.1 ≠ 1 := by
  have htrace : ((system (fun s => s) {}).exec TransitionSystem.anyStep twoAdmins
      [.startDisabling ["anna@example.com"], .start (.updateUser 2 { isAdmin := some false }), .run 0 .next, .run 0 .next, .run 0 .next,
        .run 0 .next, .commit 0, .run 1 .next, .run 1 .next, .run 1 .next]).any (·.refuses 1) = true := by
    decide +kernel
  obtain ⟨s, hrun, hp⟩ := TransitionSystem.run_of_exec_any htrace
  have hback := refuses_iff.mp hp
  obtain ⟨hadmin, -, -, hrefused⟩ := last_admin_stays twoAdmins_initial hrun
  exact ⟨s, hrun, hback, hadmin, hrefused 1 hback s .refl⟩

end MailExpert.Administrators
