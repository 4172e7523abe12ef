import MailExpert.AccessSync.Runner

/-!
# What a run does to the users

Users are told apart by their email: the addresses stored are normal, and no two users have one address.
Each statement of a run is described by what it makes of the user of one address.
-/

namespace MailExpert.AccessSync

variable {toLowerCase : String → String} {users users' users₁ : UserTable} {e e' : String} {u u' : User}
  {id id' : Nat} {tombstones bootstrap es es' : List String}

/-- An address as `normalizeEmail` stores it. -/
structure Normal (toLowerCase : String → String) (e : String) : Prop where
  lower : toLowerCase e = e
  trim : trim e = e
  nonempty : e ≠ ""

structure WellFormed (toLowerCase : String → String) (users : UserTable) : Prop where
  normal {id : Nat} {u : User} {e : String} : users.lookup id = some u → u.email = some e →
    Normal toLowerCase e
  unique {id id' : Nat} {u u' : User} {e : String} : users.lookup id = some u →
    users.lookup id' = some u' → u.email = some e → u'.email = some e → id = id'

def Row (users : UserTable) (e : String) (u : User) : Prop :=
  ∃ id, users.lookup id = some u ∧ u.email = some e

theorem Row.eq (h : WellFormed toLowerCase users) (hu : Row users e u) (hu' : Row users e u') : u = u' := by
  obtain ⟨id, hid, he⟩ := hu
  obtain ⟨id', hid', he'⟩ := hu'
  obtain rfl := h.unique hid hid' he he'
  exact Option.some.inj (hid.symm.trans hid')

theorem Row.normal (h : WellFormed toLowerCase users) (hu : Row users e u) : Normal toLowerCase e := by
  obtain ⟨id, hid, he⟩ := hu
  exact h.normal hid he

theorem email_map_iff (h : WellFormed toLowerCase users) (hid : users.lookup id = some u) :
    u.email.map toLowerCase = some e ↔ u.email = some e := by
  rw [Option.map_eq_some_iff]
  constructor
  · rintro ⟨e₀, he₀, rfl⟩
    rw [he₀, (h.normal hid he₀).lower]
  · intro he
    exact ⟨e, he, (h.normal hid he).lower⟩

theorem mem_emailsWhere (h : WellFormed toLowerCase users) {p : User → Bool} :
    e ∈ emailsWhere toLowerCase users p ↔ ∃ u, Row users e u ∧ p u = true := by
  simp only [emailsWhere, List.mem_filterMap, Prod.exists, Table.mem_select]
  constructor
  · rintro ⟨id, u, ⟨hid, hp⟩, he⟩
    exact ⟨u, ⟨id, hid, (email_map_iff h hid).mp he⟩, hp⟩
  · rintro ⟨u, ⟨id, hid, he⟩, hp⟩
    exact ⟨id, u, ⟨hid, hp⟩, (email_map_iff h hid).mpr he⟩

theorem nodup_emailsWhere (h : WellFormed toLowerCase users) {p : User → Bool} :
    (emailsWhere toLowerCase users p).Nodup := by
  have hkeys : (users.select fun _ user => p user).Pairwise fun row row' => row.1 ≠ row'.1 := by
    have hnodup : users.entries.Pairwise fun row row' => row.1 ≠ row'.1 :=
      List.nodupKeys_iff_pairwise.mp users.nodupKeys
    exact (hnodup.filter _).map _ fun _ _ hne => hne
  rw [emailsWhere, List.Nodup, List.pairwise_filterMap]
  refine hkeys.imp_of_mem fun {row row'} hrow hrow' hne e he e' he' heq => ?_
  obtain ⟨hid, -⟩ := Table.mem_select.mp hrow
  obtain ⟨hid', -⟩ := Table.mem_select.mp hrow'
  subst heq
  exact hne (h.unique hid hid' ((email_map_iff h hid).mp he) ((email_map_iff h hid').mp he'))

/-! ## The imports -/

/-- A user whose email was empty, or that was not there, has the address now. -/
theorem arrive_spec (id : Nat) (h : WellFormed toLowerCase users) (he : Normal toLowerCase e)
    (hnew : ∀ u, ¬ Row users e u) (hu : u.email = some e)
    (hlookup : ∀ k, users'.lookup k = if k = id then some u else users.lookup k)
    (hold : ∀ old, users.lookup id = some old → old.email = none) :
    WellFormed toLowerCase users' ∧ ∀ e' u', Row users' e' u' ↔ Row users e' u' ∨ e' = e ∧ u' = u := by
  have hrow {k : Nat} {r : User} (hk : users'.lookup k = some r) :
      k = id ∧ r = u ∨ k ≠ id ∧ users.lookup k = some r := by
    rw [hlookup] at hk
    split at hk
    · next heq => exact .inl ⟨heq, (Option.some.inj hk).symm⟩
    · next hne => exact .inr ⟨hne, hk⟩
  refine ⟨⟨fun {k r e'} hk he' => ?_, fun {k k' r r' e'} hk hk' he' he'' => ?_⟩, fun e' r => ⟨?_, ?_⟩⟩
  · rcases hrow hk with ⟨-, rfl⟩ | ⟨-, hk⟩
    · cases hu.symm.trans he'
      exact he
    · exact h.normal hk he'
  · rcases hrow hk with ⟨hkid, rfl⟩ | ⟨-, hk₀⟩
    · rcases hrow hk' with ⟨hkid', -⟩ | ⟨-, hk₀'⟩
      · exact hkid.trans hkid'.symm
      · cases hu.symm.trans he'
        exact absurd ⟨k', hk₀', he''⟩ (hnew r')
    · rcases hrow hk' with ⟨-, rfl⟩ | ⟨-, hk₀'⟩
      · cases hu.symm.trans he''
        exact absurd ⟨k, hk₀, he'⟩ (hnew r)
      · exact h.unique hk₀ hk₀' he' he''
  · rintro ⟨k, hk, he'⟩
    rcases hrow hk with ⟨-, rfl⟩ | ⟨-, hk⟩
    · exact .inr ⟨(Option.some.inj (hu.symm.trans he')).symm, rfl⟩
    · exact .inl ⟨k, hk, he'⟩
  · rintro (⟨k, hk, he'⟩ | ⟨rfl, rfl⟩)
    · refine ⟨k, ?_, he'⟩
      rw [hlookup, if_neg]
      · exact hk
      · rintro rfl
        rw [hold r hk] at he'
        cases he'
    · exact ⟨id, by rw [hlookup, if_pos rfl], hu⟩

theorem lookup_freshId : users.lookup (freshId users) = none := by
  rw [AList.lookup_eq_none]
  intro hmem
  have hle : ∀ ks : List Nat, ∀ k ∈ ks, k ≤ ks.foldr max 0 := by
    intro ks
    induction ks with
    | nil => simp
    | cons k ks ih =>
      intro k' hk'
      rw [List.foldr_cons]
      rcases List.mem_cons.mp hk' with rfl | hk'
      · exact le_max_left _ _
      · exact (ih k' hk').trans (le_max_right _ _)
  have := hle users.keys (freshId users) hmem
  rw [freshId] at this
  omega

/-- A new address gets one user. -/
theorem claimOrCreateUserByEmail_spec {arrived : Bool} (h : WellFormed toLowerCase users)
    (he : Normal toLowerCase e) (hnew : ∀ u, ¬ Row users e u)
    (hok : claimOrCreateUserByEmail toLowerCase users e = .ok (users', u, arrived)) :
    arrived = true ∧ u.email = some e ∧ WellFormed toLowerCase users' ∧
      ∀ e' u', Row users' e' u' ↔ Row users e' u' ∨ e' = e ∧ u' = u := by
  unfold claimOrCreateUserByEmail at hok
  split at hok
  · next id found hfound =>
    obtain ⟨hid, hhas⟩ := Table.find?_some hfound
    rw [User.has, decide_eq_true_eq, email_map_iff h hid] at hhas
    exact absurd ⟨id, hid, hhas⟩ (hnew found)
  dsimp only at hok
  split at hok
  · next id found hargmin =>
    cases hok
    obtain ⟨hid, hlegacy⟩ := Table.mem_select.mp (List.argmin_mem hargmin)
    simp only [Bool.and_eq_true, decide_eq_true_eq] at hlegacy
    refine ⟨rfl, rfl, arrive_spec id h he hnew rfl (fun k => ?_) fun old hold => ?_⟩
    · rw [Table.lookup_modify, hid, Option.map_some]
    · cases hid.symm.trans hold
      exact hlegacy.1
  · split at hok
    · cases hok
    · cases hok
      refine ⟨rfl, rfl, arrive_spec (freshId users) h he hnew rfl (fun k => ?_) fun old hold => ?_⟩
      · rw [Table.lookup_insert']
      · rw [lookup_freshId] at hold
        cases hold

/-- The users that addresses got. The imported are those that are active. -/
structure Imports (toLowerCase : String → String) (users users' : UserTable) (es imported : List String) :
    Prop where
  wf : WellFormed toLowerCase users'
  kept {e : String} {u : User} : e ∉ es → (Row users' e u ↔ Row users e u)
  known {e : String} : e ∈ es → ∃ u, Row users' e u
  imported {e : String} : e ∈ imported ↔ e ∈ es ∧ ∃ u, Row users' e u ∧ u.disabled = false

theorem importUser_errors {done : Imported} :
    done.errors ≤ (importUser toLowerCase tombstones done e).errors := by
  unfold importUser
  split
  · exact le_refl _
  · split
    · exact Nat.le_succ _
    · exact le_refl _

theorem importUsers_errors {done : Imported} :
    done.errors ≤ (es.foldl (importUser toLowerCase tombstones) done).errors := by
  induction es generalizing done with
  | nil => exact le_refl _
  | cons e es ih => exact importUser_errors.trans ih

theorem importUser_spec {done : Imported} (h : WellFormed toLowerCase done.users)
    (he : Normal toLowerCase e) (hnew : ∀ u, ¬ Row done.users e u) (htomb : e ∉ tombstones)
    (herrors : (importUser toLowerCase tombstones done e).errors = done.errors) :
    ∃ imported, (importUser toLowerCase tombstones done e).imported = done.imported ++ imported ∧
      Imports toLowerCase done.users (importUser toLowerCase tombstones done e).users [e] imported := by
  unfold importUser at herrors ⊢
  rw [if_neg htomb] at herrors ⊢
  split
  · next error hclaim =>
    rw [hclaim] at herrors
    exact absurd herrors (by simp)
  next users₁ u arrived hclaim =>
  obtain ⟨rfl, hu, hwf, hrows⟩ := claimOrCreateUserByEmail_spec h he hnew hclaim
  have hrow : Row users₁ e u := (hrows e u).mpr (.inr ⟨rfl, rfl⟩)
  refine ⟨if u.disabled then [] else [e], ?_, hwf, fun {e' u'} hne => ?_, fun {e'} hmem => ?_, fun {e'} => ?_⟩
  · cases hdisabled : u.disabled with
    | false => simp [hu]
    | true => simp
  · rw [hrows]
    constructor
    · rintro (hold | ⟨rfl, -⟩)
      · exact hold
      · exact absurd (List.mem_singleton_self e') hne
    · exact .inl
  · obtain rfl := List.mem_singleton.mp hmem
    exact ⟨u, hrow⟩
  · constructor
    · intro hmem
      split at hmem
      · cases hmem
      · next hdisabled =>
        obtain rfl := List.mem_singleton.mp hmem
        exact ⟨hmem, u, hrow, by simpa using hdisabled⟩
    · rintro ⟨hmem, u', hu', hactive⟩
      obtain rfl := List.mem_singleton.mp hmem
      obtain rfl := hrow.eq hwf hu'
      rw [hactive, if_neg (by simp)]
      exact hmem

theorem Imports.trans {first later : List String} (h : Imports toLowerCase users users₁ es first)
    (h' : Imports toLowerCase users₁ users' es' later) (hdisjoint : ∀ e ∈ es, e ∉ es') :
    Imports toLowerCase users users' (es ++ es') (first ++ later) := by
  refine ⟨h'.wf, fun {e u} hne => ?_, fun {e} hmem => ?_, fun {e} => ?_⟩
  · rw [List.mem_append, not_or] at hne
    rw [h'.kept hne.2, h.kept hne.1]
  · rcases List.mem_append.mp hmem with hmem | hmem
    · obtain ⟨u, hu⟩ := h.known hmem
      exact ⟨u, (h'.kept (hdisjoint e hmem)).mpr hu⟩
    · exact h'.known hmem
  · rw [List.mem_append, List.mem_append, h.imported, h'.imported]
    constructor
    · rintro (⟨hmem, u, hu, hactive⟩ | ⟨hmem, hu⟩)
      · exact ⟨.inl hmem, u, (h'.kept (hdisjoint e hmem)).mpr hu, hactive⟩
      · exact ⟨.inr hmem, hu⟩
    · rintro ⟨hmem | hmem, u, hu, hactive⟩
      · exact .inl ⟨hmem, u, (h'.kept (hdisjoint e hmem)).mp hu, hactive⟩
      · exact .inr ⟨hmem, u, hu, hactive⟩

/-- Addresses that no user has, and that import without an error. -/
theorem foldl_importUser_spec {done : Imported} (h : WellFormed toLowerCase done.users)
    (hnormal : ∀ e ∈ es, Normal toLowerCase e) (hnodup : es.Nodup)
    (hnew : ∀ e ∈ es, ∀ u, ¬ Row done.users e u) (htomb : ∀ e ∈ es, e ∉ tombstones)
    (herrors : (es.foldl (importUser toLowerCase tombstones) done).errors = done.errors) :
    ∃ imported, (es.foldl (importUser toLowerCase tombstones) done).imported = done.imported ++ imported ∧
      Imports toLowerCase done.users (es.foldl (importUser toLowerCase tombstones) done).users es imported := by
  induction es generalizing done with
  | nil =>
    refine ⟨[], (List.append_nil _).symm, h, fun _ => Iff.rfl, fun {e} hmem => ?_, fun {e} => ?_⟩
    · cases hmem
    · simp
  | cons e es ih =>
    rw [List.foldl_cons] at herrors ⊢
    have hfirst : (importUser toLowerCase tombstones done e).errors = done.errors :=
      le_antisymm (herrors ▸ importUsers_errors) importUser_errors
    obtain ⟨first, himported, hspec⟩ := importUser_spec h (hnormal e List.mem_cons_self)
      (hnew e List.mem_cons_self) (htomb e List.mem_cons_self) hfirst
    obtain ⟨hfresh, hnodup⟩ := List.nodup_cons.mp hnodup
    have hother : ∀ e' ∈ es, e' ∉ [e] := by
      rintro e' hmem hsame
      rw [List.mem_singleton.mp hsame] at hmem
      exact hfresh hmem
    obtain ⟨later, himported', hspec'⟩ := ih hspec.wf
      (fun e' hmem => hnormal e' (List.mem_cons_of_mem e hmem)) hnodup
      (fun e' hmem u hrow => hnew e' (List.mem_cons_of_mem e hmem) u ((hspec.kept (hother e' hmem)).mp hrow))
      (fun e' hmem => htomb e' (List.mem_cons_of_mem e hmem)) (herrors.trans hfirst.symm)
    refine ⟨first ++ later, ?_, ?_⟩
    · rw [himported', himported, List.append_assoc]
    · exact hspec.trans hspec' fun e' hmem => (List.mem_singleton.mp hmem) ▸ hfresh

theorem importUsers_spec (h : WellFormed toLowerCase users) (hnormal : ∀ e ∈ es, Normal toLowerCase e)
    (hnodup : es.Nodup) (hnew : ∀ e ∈ es, ∀ u, ¬ Row users e u) (htomb : ∀ e ∈ es, e ∉ tombstones)
    (herrors : (importUsers toLowerCase users tombstones es).errors = 0) :
    Imports toLowerCase users (importUsers toLowerCase users tombstones es).users es
      (importUsers toLowerCase users tombstones es).imported := by
  have hstart : WellFormed toLowerCase ({ users } : Imported).users := h
  obtain ⟨imported, himported, hspec⟩ := foldl_importUser_spec hstart hnormal hnodup hnew htomb herrors
  have heq : (importUsers toLowerCase users tombstones es).imported = imported := himported
  rw [heq]
  exact hspec

theorem WellFormed.of_lookup {f : Nat → User → User} (h : WellFormed toLowerCase users)
    (hf : ∀ k u, (f k u).email = u.email)
    (hlookup : ∀ k, users'.lookup k = (users.lookup k).map (f k)) : WellFormed toLowerCase users' := by
  have hold {k : Nat} {r : User} (hk : users'.lookup k = some r) :
      ∃ u, users.lookup k = some u ∧ u.email = r.email := by
    rw [hlookup, Option.map_eq_some_iff] at hk
    obtain ⟨u, hu, rfl⟩ := hk
    exact ⟨u, hu, (hf k u).symm⟩
  constructor
  · intro k r e hk he
    obtain ⟨u, hu, heq⟩ := hold hk
    exact h.normal hu (heq.trans he)
  · intro k k' r r' e hk hk' he he'
    obtain ⟨u, hu, heq⟩ := hold hk
    obtain ⟨u', hu', heq'⟩ := hold hk'
    exact h.unique hu hu' (heq.trans he) (heq'.trans he')

/-- The user is the sync's own from now on. -/
def User.adopted (u : User) : User := { u with access_source := none }

theorem adoptUsers_spec (h : WellFormed toLowerCase users) :
    WellFormed toLowerCase (adoptUsers toLowerCase users es) ∧
      ∀ e u', Row (adoptUsers toLowerCase users es) e u' ↔
        ∃ u, Row users e u ∧ u' = if e ∈ es ∧ u.login = true then u.adopted else u := by
  have hlookup (k : Nat) : (adoptUsers toLowerCase users es).lookup k = (users.lookup k).map fun u =>
      if (u.email.any (toLowerCase · ∈ es) && u.login) = true then u.adopted else u := by
    rw [adoptUsers, Table.lookup_update]
    rfl
  refine ⟨h.of_lookup (fun k u => ?_) hlookup, fun e u' => ?_⟩
  · split
    · rfl
    · rfl
  have hwrite {k : Nat} {u : User} (hk : users.lookup k = some u) (he : u.email = some e) :
      (if (u.email.any (toLowerCase · ∈ es) && u.login) = true then u.adopted else u) =
        if e ∈ es ∧ u.login = true then u.adopted else u := by
    simp [he, (h.normal hk he).lower]
  constructor
  · rintro ⟨k, hk, he⟩
    rw [hlookup, Option.map_eq_some_iff] at hk
    obtain ⟨u, hu, rfl⟩ := hk
    have hemail : u.email = some e := by
      rw [← he]
      split
      · rfl
      · rfl
    exact ⟨u, ⟨k, hu, hemail⟩, hwrite hu hemail⟩
  · rintro ⟨u, ⟨k, hk, he⟩, rfl⟩
    refine ⟨k, ?_, ?_⟩
    · rw [hlookup, hk, Option.map_some, hwrite hk he]
    · split
      · exact he
      · exact he

/-! ## The disables -/

/-- The user of the address is the only active administrator. -/
def SoleAdmin (users : UserTable) (e : String) : Prop :=
  (∃ u, Row users e u ∧ countsAsActiveAdmin u = true) ∧
    ∀ e' u', Row users e' u' → countsAsActiveAdmin u' = true → e' = e

def User.off (u : User) : User := { u with disabled := true }

/-- The users that were turned off among the addresses, and why another one was not. -/
structure Disables (toLowerCase : String → String) (users users' : UserTable)
    (es bootstrap disabled : List String) : Prop where
  wf : WellFormed toLowerCase users'
  rows {e : String} {u' : User} : Row users' e u' ↔
    ∃ u, Row users e u ∧ u' = if e ∈ disabled then u.off else u
  active {e : String} : e ∈ disabled → e ∈ es ∧ e ∉ bootstrap ∧ ∃ u, Row users e u ∧ u.disabled = false
  sole {e : String} {u : User} : e ∈ es → e ∉ bootstrap → Row users' e u → u.disabled = false →
    SoleAdmin users' e
  spared {e : String} : e ∈ disabled → ¬ SoleAdmin users e

theorem countsAsActiveAdmin_iff (h : WellFormed toLowerCase users) (hu : Row users e u) :
    countsAsActiveAdmin u = true ↔ u.is_admin = true ∧ u.disabled = false := by
  have hnormal := hu.normal h
  obtain ⟨id, hid, he⟩ := hu
  simp [countsAsActiveAdmin, he, hnormal.nonempty]

theorem Disables.none (h : WellFormed toLowerCase users)
    (hsole : e ∉ bootstrap → ∀ u, Row users e u → u.disabled = false → SoleAdmin users e) :
    Disables toLowerCase users users [e] bootstrap [] := by
  refine ⟨h, fun {e' u'} => ?_, fun {e'} hmem => ?_, fun {e' u} hmem hnot hu hactive => ?_, fun {e'} hmem => ?_⟩
  · simp
  · cases hmem
  · obtain rfl := List.mem_singleton.mp hmem
    exact hsole hnot u hu hactive
  · cases hmem

/-- One address is turned off, unless no active administrator would be left. -/
theorem disableUser_spec {done : Disabled} (h : WellFormed toLowerCase done.users) :
    ∃ disabled, (disableUser toLowerCase bootstrap done e).disabled = done.disabled ++ disabled ∧
      Disables toLowerCase done.users (disableUser toLowerCase bootstrap done e).users [e] bootstrap
        disabled := by
  unfold disableUser
  split
  · next hbootstrap =>
    exact ⟨[], (List.append_nil _).symm, .none h fun hnot => absurd hbootstrap hnot⟩
  next hbootstrap =>
  split
  · next hnone =>
    refine ⟨[], (List.append_nil _).symm, .none h fun _ u hu hactive => ?_⟩
    obtain ⟨id, hid, he⟩ := hu
    have hnot := Table.find?_none hnone hid
    rw [User.has, (email_map_iff h hid).mpr he, hactive] at hnot
    simp at hnot
  next id u hfound =>
  obtain ⟨hid, hhas⟩ := Table.find?_some hfound
  rw [Bool.and_eq_true, User.has, decide_eq_true_eq, email_map_iff h hid] at hhas
  obtain ⟨he, hactive⟩ := hhas
  have hrow : Row done.users e u := ⟨id, hid, he⟩
  split
  · next hkept =>
    rw [Bool.and_eq_true, Bool.not_eq_true'] at hkept
    obtain ⟨hcounts, hnone⟩ := hkept
    refine ⟨[], (List.append_nil _).symm, .none h fun _ _ _ _ => ⟨⟨u, hrow, hcounts⟩, fun e' u' hu' hadmin => ?_⟩⟩
    · by_contra hne
      have hcounts := (countsAsActiveAdmin_iff h hu').mp hadmin
      obtain ⟨k, hk, he'⟩ := hu'
      have hdiff : k ≠ id := by
        rintro rfl
        rw [hid] at hk
        cases hk
        exact hne (Option.some.inj (he'.symm.trans he))
      rw [otherActiveAdminExists, decide_eq_false_iff_not, not_not] at hnone
      have hmem : (k, u') ∈ done.users.select fun k user =>
          user.is_admin && !user.disabled && k ≠ id && user.email.isSome :=
        Table.mem_select.mpr ⟨hk, by simp [hcounts, hdiff, he']⟩
      rw [hnone] at hmem
      cases hmem
  · next hoff =>
    have hlookup (k : Nat) : (done.users.modify id fun _ => u.off).lookup k =
        (done.users.lookup k).map fun r => if k = id then r.off else r := by
      rw [Table.lookup_modify]
      split
      · next heq => rw [heq, hid, Option.map_some, Option.map_some]
      · simp
    have hwf : WellFormed toLowerCase (done.users.modify id fun _ => u.off) := by
      refine h.of_lookup (fun k r => ?_) hlookup
      split
      · rfl
      · rfl
    have hrows {e' : String} {u' : User} : Row (done.users.modify id fun _ => u.off) e' u' ↔
        ∃ r, Row done.users e' r ∧ u' = if e' ∈ [e] then r.off else r := by
      constructor
      · rintro ⟨k, hk, he'⟩
        rw [hlookup, Option.map_eq_some_iff] at hk
        obtain ⟨r, hr, rfl⟩ := hk
        have hemail : r.email = some e' := by
          rw [← he']
          split
          · rfl
          · rfl
        refine ⟨r, ⟨k, hr, hemail⟩, ?_⟩
        by_cases hk : k = id
        · subst hk
          cases hid.symm.trans hr
          cases he.symm.trans hemail
          simp
        · have hne : e' ≠ e := by
            rintro rfl
            exact hk (h.unique hr hid hemail he)
          simp [hk, hne]
      · rintro ⟨r, ⟨k, hk, he'⟩, rfl⟩
        refine ⟨k, ?_, ?_⟩
        · rw [hlookup, hk, Option.map_some]
          by_cases hne : e' = e
          · subst hne
            simp [h.unique hk hid he' he]
          · have hk' : k ≠ id := by
              rintro rfl
              cases hid.symm.trans hk
              exact hne (Option.some.inj (he'.symm.trans he))
            simp [hk', hne]
        · split
          · exact he'
          · exact he'
    refine ⟨[e], by rw [he]; rfl, hwf, hrows, fun {e'} hmem => ?_, fun {e' u'} hmem _ hu' hon => ?_,
      fun {e'} hmem hsole => hoff ?_⟩
    · obtain rfl := List.mem_singleton.mp hmem
      exact ⟨hmem, hbootstrap, u, hrow, by simpa using hactive⟩
    · obtain ⟨r, -, rfl⟩ := hrows.mp hu'
      rw [if_pos hmem] at hon
      cases hon
    · obtain rfl := List.mem_singleton.mp hmem
      obtain ⟨⟨admin, hadmin, hcounts⟩, hothers⟩ := hsole
      obtain rfl := hadmin.eq h hrow
      rw [Bool.and_eq_true, Bool.not_eq_true']
      refine ⟨hcounts, decide_eq_false fun hne => ?_⟩
      obtain ⟨⟨k, u'⟩, hmem'⟩ := List.exists_mem_of_ne_nil _ hne
      obtain ⟨hk, hadmin'⟩ := Table.mem_select.mp hmem'
      simp only [Bool.and_eq_true, Bool.not_eq_true', decide_eq_true_eq] at hadmin'
      obtain ⟨⟨⟨hon, hactive'⟩, hdiff⟩, hemail⟩ := hadmin'
      obtain ⟨e₀, he₀⟩ := Option.isSome_iff_exists.mp hemail
      have hrow' : Row done.users e₀ u' := ⟨k, hk, he₀⟩
      obtain rfl := hothers e₀ u' hrow' ((countsAsActiveAdmin_iff h hrow').mpr ⟨hon, hactive'⟩)
      exact hdiff (h.unique hk hid he₀ he)

/-- The only active administrator stays the only one while others are turned off. -/
theorem Disables.soleAdmin {disabled : List String}
    (h : Disables toLowerCase users users' es bootstrap disabled) (hsole : SoleAdmin users e) :
    SoleAdmin users' e := by
  have hnot : e ∉ disabled := fun hmem => h.spared hmem hsole
  obtain ⟨⟨admin, hadmin, hcounts⟩, hothers⟩ := hsole
  refine ⟨⟨admin, h.rows.mpr ⟨admin, hadmin, by rw [if_neg hnot]⟩, hcounts⟩, fun e' u' hu' hcounts' => ?_⟩
  have hactive := ((countsAsActiveAdmin_iff h.wf hu').mp hcounts').2
  obtain ⟨u, hu, rfl⟩ := h.rows.mp hu'
  split at hactive
  · cases hactive
  · next hon =>
    rw [if_neg hon] at hcounts'
    exact hothers e' u hu hcounts'

theorem Disables.trans {first later : List String}
    (h : Disables toLowerCase users users₁ es bootstrap first)
    (h' : Disables toLowerCase users₁ users' es' bootstrap later) :
    Disables toLowerCase users users' (es ++ es') bootstrap (first ++ later) := by
  have hrows {e : String} {u' : User} : Row users' e u' ↔
      ∃ u, Row users e u ∧ u' = if e ∈ first ++ later then u.off else u := by
    rw [h'.rows]
    constructor
    · rintro ⟨u₁, hu₁, rfl⟩
      obtain ⟨u, hu, rfl⟩ := h.rows.mp hu₁
      refine ⟨u, hu, ?_⟩
      by_cases hfirst : e ∈ first <;> by_cases hlater : e ∈ later <;> simp [hfirst, hlater, User.off]
    · rintro ⟨u, hu, rfl⟩
      refine ⟨_, h.rows.mpr ⟨u, hu, rfl⟩, ?_⟩
      by_cases hfirst : e ∈ first <;> by_cases hlater : e ∈ later <;> simp [hfirst, hlater, User.off]
  -- An administrator who is active after the later disables was active before them.
  have hback {e : String} {u' : User} (hu' : Row users' e u') (hactive : u'.disabled = false) :
      Row users₁ e u' := by
    obtain ⟨u₁, hu₁, rfl⟩ := h'.rows.mp hu'
    split at hactive
    · cases hactive
    · next hnot =>
      rw [if_neg hnot]
      exact hu₁
  refine ⟨h'.wf, hrows, fun {e} hmem => ?_, fun {e u} hmem hnot hu hactive => ?_, fun {e} hmem hsole => ?_⟩
  · rcases List.mem_append.mp hmem with hmem | hmem
    · obtain ⟨hes, hnot, hrow⟩ := h.active hmem
      exact ⟨List.mem_append_left _ hes, hnot, hrow⟩
    · obtain ⟨hes, hnot, u₁, hu₁, hactive⟩ := h'.active hmem
      obtain ⟨u, hu, rfl⟩ := h.rows.mp hu₁
      refine ⟨List.mem_append_right _ hes, hnot, u, hu, ?_⟩
      split at hactive
      · cases hactive
      · exact hactive
  · rcases List.mem_append.mp hmem with hmem | hmem
    · obtain ⟨⟨admin, hadmin, hcounts⟩, hothers⟩ := h.sole hmem hnot (hback hu hactive) hactive
      obtain rfl := hadmin.eq h.wf (hback hu hactive)
      refine ⟨⟨admin, hu, hcounts⟩, fun e' u' hu' hcounts' => ?_⟩
      exact hothers e' u' (hback hu' ((countsAsActiveAdmin_iff h'.wf hu').mp hcounts').2) hcounts'
    · exact h'.sole hmem hnot hu hactive
  · rcases List.mem_append.mp hmem with hmem | hmem
    · exact h.spared hmem hsole
    · exact h'.spared hmem (h.soleAdmin hsole)

theorem foldl_disableUser_spec {done : Disabled} (h : WellFormed toLowerCase done.users) :
    ∃ disabled, (es.foldl (disableUser toLowerCase bootstrap) done).disabled = done.disabled ++ disabled ∧
      Disables toLowerCase done.users (es.foldl (disableUser toLowerCase bootstrap) done).users es bootstrap
        disabled := by
  induction es generalizing done with
  | nil =>
    refine ⟨[], (List.append_nil _).symm, h, fun {e u} => by simp, fun {e} hmem => ?_, fun {e u} hmem => ?_,
      fun {e} hmem => ?_⟩
    · cases hmem
    · cases hmem
    · cases hmem
  | cons e es ih =>
    obtain ⟨first, hdisabled, hspec⟩ := disableUser_spec h
    obtain ⟨later, hdisabled', hspec'⟩ := ih hspec.wf
    refine ⟨first ++ later, ?_, hspec.trans hspec'⟩
    rw [List.foldl_cons, hdisabled', hdisabled, List.append_assoc]

theorem disableUsersByEmail_spec (h : WellFormed toLowerCase users) :
    Disables toLowerCase users (disableUsersByEmail toLowerCase users es bootstrap).users es bootstrap
      (disableUsersByEmail toLowerCase users es bootstrap).disabled := by
  have hstart : WellFormed toLowerCase ({ users } : Disabled).users := h
  obtain ⟨disabled, hdisabled, hspec⟩ := foldl_disableUser_spec hstart
  have heq : (disableUsersByEmail toLowerCase users es bootstrap).disabled = disabled := hdisabled
  rw [heq]
  exact hspec

theorem SoleAdmin.adopt (h : WellFormed toLowerCase users) (hsole : SoleAdmin users e) :
    SoleAdmin (adoptUsers toLowerCase users es) e := by
  have hrows := (@adoptUsers_spec _ _ es h).2
  have hcounts (u : User) (p : Prop) [Decidable p] :
      countsAsActiveAdmin (if p then u.adopted else u) = countsAsActiveAdmin u := by
    split
    · rfl
    · rfl
  obtain ⟨⟨admin, hadmin, hactive⟩, hothers⟩ := hsole
  refine ⟨⟨_, (hrows e _).mpr ⟨admin, hadmin, rfl⟩, (hcounts admin _).trans hactive⟩, ?_⟩
  intro e' u' hu' hcounts'
  obtain ⟨u, hu, rfl⟩ := (hrows e' u').mp hu'
  exact hothers e' u hu ((hcounts u _).symm.trans hcounts')

end MailExpert.AccessSync
