import MailExpert.SignIn.Routes

/-!
# A password reset

Each sign-in is told by the check it rests on, the user and the version of the hash. A request takes its check from the row it
reads or from the session it was loaded with, and what it stores has the same one (`run_moves`). From its first SCAN on a reset
keeps in view the sessions that still have to go.
-/

namespace MailExpert.SignIn

variable {lib : Library} {w w' : World} {s s' : State} {p p' : Phase} {pick : Pick} {u u' : UserId} {v : Nat}
  {sid : Sid} {session : Session} {keys : List Sid}

/-- The user and the version of the hash that a password was checked against. -/
abbrev Check := UserId × Nat

def Chain.check (c : Chain) : Check := (c.user, c.version)

def Session.check (session : Session) : Option Check := session.chain.map Chain.check

def Device.check (d : Device) : Option Check := d.chain.map Chain.check

/-- The check of a session that awaits its second step. -/
def Session.pendingCheck (session : Session) : Option Check := if session.pendingUserId.isSome then session.check else none

/-- The check that a request may yet sign in on. -/
def Phase.check : Phase → Option Check
  | .leave _ _ _ c | .findDevice _ _ c | .policy _ c => some c.check
  | .otpDelete _ _ after | .otpInsert _ _ after | .otpMail after => after.bind Session.check
  | .pend session => session.check
  | .elevate _ o _ | .trustSetting o | .trustInsert o _ | .signIn o => o.chain.map Chain.check
  | .challenge _ copy _ _ | .verify _ copy _ _ | .enable _ copy _ => copy.pendingCheck
  | .challengeUser _ _ c _ _ | .replay _ _ c _ _ | .consume _ _ c _ _ | .consumed _ _ c _ _ | .enableVerify _ _ c _ _
  | .enroll _ c _ => c.map Chain.check
  | _ => none

/-! ## What a request does -/

/-- What a step of a request at `p` makes of the checks. -/
structure Moves (w : World) (p : Phase) (w' : World) (p' : Phase) : Prop where
  check : p'.check = none ∨ p'.check = p.check ∨
    ∃ u user, w.users.lookup u = some user ∧ p'.check = some (u, user.version)
  sessions : ∀ sid session', w'.sessions.lookup sid = some session' → session'.check = p.check ∨
    ∃ session, w.sessions.lookup sid = some session ∧ session'.check = session.check ∧ session'.userId = session.userId ∧
      (session'.pendingUserId.isSome = true → session.pendingUserId.isSome = true)
  devices : ∀ id d, w'.devices.lookup id = some d → d.check = p.check ∨ w.devices.lookup id = some d
  users : ∀ u user', w'.users.lookup u = some user' → ∃ user, w.users.lookup u = some user ∧ user.version ≤ user'.version

theorem sessions_self (h : w'.sessions = w.sessions) {session' : Session} (hs : w'.sessions.lookup sid = some session') :
    ∃ session, w.sessions.lookup sid = some session ∧ session'.check = session.check ∧ session'.userId = session.userId ∧
      (session'.pendingUserId.isSome = true → session.pendingUserId.isSome = true) :=
  ⟨session', h ▸ hs, rfl, rfl, id⟩

/-- A step that leaves the sessions, the devices and the versions alone. -/
theorem Moves.stay (hcheck : p'.check = none ∨ p'.check = p.check ∨
    ∃ u user, w.users.lookup u = some user ∧ p'.check = some (u, user.version))
    (hsessions : w'.sessions = w.sessions) (hdevices : w'.devices = w.devices) (husers : w'.users = w.users) :
    Moves w p w' p' where
  check := hcheck
  sessions _ _ hs := .inr (sessions_self hsessions hs)
  devices _ _ hd := .inr (hdevices ▸ hd)
  users _ user' hu := ⟨user', husers ▸ hu, le_rfl⟩

theorem Moves.erase (hcheck : p'.check = none ∨ p'.check = p.check) :
    Moves w p { w with sessions := w.sessions.erase sid } p' where
  check := hcheck.imp_right .inl
  sessions k session' hs := by
    rw [Table.lookup_erase'] at hs
    split at hs
    · cases hs
    · exact .inr ⟨session', hs, rfl, rfl, id⟩
  devices _ _ hd := .inr hd
  users _ user' hu := ⟨user', hu, le_rfl⟩

theorem Moves.save {f : Session → Session} (hcheck : ∀ session, (f session).check = session.check)
    (huser : ∀ session, (f session).userId = session.userId)
    (hpending : ∀ session, (f session).pendingUserId.isSome = true → session.pendingUserId.isSome = true) :
    Moves w p { w with sessions := w.sessions.modify sid f } .done where
  check := .inl rfl
  sessions k session' hs := by
    rw [Table.lookup_modify] at hs
    split at hs
    next heq =>
      obtain ⟨session, hsid, rfl⟩ := Option.map_eq_some_iff.mp hs
      exact .inr ⟨session, heq ▸ hsid, hcheck _, huser _, hpending _⟩
    next => exact .inr ⟨session', hs, rfl, rfl, id⟩
  devices _ _ hd := .inr hd
  users _ user' hu := ⟨user', hu, le_rfl⟩

theorem lookup_addSession {session' : Session} (hs : (w.addSession session).sessions.lookup sid = some session') :
    session' = session ∨ w.sessions.lookup sid = some session' := by
  rw [World.addSession, Table.lookup_insert'] at hs
  split at hs
  · exact .inl (Option.some.inj hs).symm
  · exact .inr hs

theorem Moves.add (hcheck : session.check = p.check) : Moves w p (w.addSession session) .done where
  check := .inl rfl
  sessions k session' hs := by
    rcases lookup_addSession hs with rfl | hs
    · exact .inl hcheck
    · exact .inr ⟨session', hs, rfl, rfl, id⟩
  devices _ _ hd := .inr hd
  users _ user' hu := ⟨user', hu, le_rfl⟩

theorem versions_modify {users : Table UserId User} {f : User → User} (hf : ∀ user, user.version ≤ (f user).version)
    {user' : User} (hu : (users.modify u' f).lookup u = some user') :
    ∃ user, users.lookup u = some user ∧ user.version ≤ user'.version := by
  rw [Table.lookup_modify] at hu
  split at hu
  next heq =>
    obtain ⟨user, hid, rfl⟩ := Option.map_eq_some_iff.mp hu
    exact ⟨user, heq ▸ hid, hf user⟩
  next => exact ⟨user', hu, le_rfl⟩

theorem Moves.read {q : Phase} (h : some (w, q) = some (w', p')) (hcheck : q.check = none ∨ q.check = p.check) : Moves w p w' p' := by
  cases h
  exact .stay (hcheck.imp_right .inl) rfl rfl rfl

theorem pendingCheck_eq (h : session.pendingUserId = some u) : session.pendingCheck = session.check := by
  rw [Session.pendingCheck, h]
  rfl

theorem run_moves (h : w.run lib p pick = some (w', p')) : Moves w p w' p' := by
  unfold World.run at h
  split at h
  · cases h
  · exact .read h (.inl rfl)
  · refine .read h (.inl ?_)
    split <;> rfl
  · split at h
    · exact .read h (.inl rfl)
    · cases h
  · -- the check of a password against the hash that is read
    split at h
    · cases h
    next user huser =>
    split at h
    · cases h
    split at h
    · exact .read h (.inl rfl)
    split at h
    · exact .read h (.inl rfl)
    split at h
    · exact .read h (.inl rfl)
    · cases h
      exact .stay (.inr (.inr ⟨_, user, huser, rfl⟩)) rfl rfl rfl
  · cases h
    exact .erase (.inr rfl)
  · split at h
    · cases h
    · exact .read h (.inr rfl)
  · split at h
    · split at h
      · exact .read h (.inr rfl)
      · cases h
    · cases h
  · split at h
    · exact .read h (.inr rfl)
    split at h
    · split at h
      · exact .read h (.inr rfl)
      · exact .read h (.inr rfl)
    · exact .read h (.inr rfl)
  · cases h
    exact .stay (.inr (.inl rfl)) rfl rfl rfl
  · cases h
    exact .stay (.inr (.inl rfl)) rfl rfl rfl
  · refine .read h ?_
    split
    · exact .inr rfl
    · exact .inl rfl
  · refine .read h ?_
    split
    · exact .inr rfl
    · exact .inl rfl
  · cases h
    exact .save (fun _ => rfl) (fun _ => rfl) fun _ h => (by cases h)
  · cases h
    exact .save (fun _ => rfl) (fun _ => rfl) fun _ h => (by cases h)
  · cases h
    exact .add rfl
  · cases h
    refine .erase (.inr ?_)
    split <;> rfl
  · refine .read h (.inr ?_)
    split <;> rfl
  · cases h
    exact {
      check := .inr (.inl rfl)
      sessions := fun _ _ hs => .inr (sessions_self rfl hs)
      devices := fun id d hd => by
        rw [Table.lookup_insert'] at hd
        split at hd
        · exact .inl (Option.some.inj hd ▸ rfl)
        · exact .inr hd
      users := fun _ user' hu => ⟨user', hu, le_rfl⟩ }
  · next o =>
    cases h
    have hadd : Moves w (.signIn o) (w.addSession { userId := o.user, chain := o.chain }) .done := .add rfl
    obtain ⟨hc, hs, hd, hu⟩ := hadd
    exact ⟨hc, hs, hd, hu⟩
  · refine .read h ?_
    split
    · exact .inl rfl
    next hpending =>
    split
    · exact .inl rfl
    · exact .inr (pendingCheck_eq hpending).symm
  · refine .read h ?_
    split
    · exact .inl rfl
    split
    · exact .inl rfl
    split
    · exact .inl rfl
    split
    · exact .inr rfl
    · exact .inl rfl
  · split at h
    · exact .read h (.inl rfl)
    · cases h
      exact .stay (.inr (.inl rfl)) rfl rfl rfl
  · refine .read h (.inl ?_)
    split
    · rfl
    split <;> rfl
  · refine .read h (.inl ?_)
    split <;> rfl
  · refine .read h ?_
    split
    · exact .inl rfl
    next hpending =>
    split
    · exact .inl rfl
    split
    · exact .inl rfl
    · exact .inr (pendingCheck_eq hpending).symm
  · dsimp only at h
    split at h
    · exact .read h (.inl rfl)
    · cases h
  · dsimp only at h
    split at h
    · cases h
    split at h
    · cases h
      exact .stay (.inr (.inl rfl)) rfl rfl rfl
    · cases h
  · refine .read h ?_
    split
    · exact .inl rfl
    split
    · exact .inl rfl
    · exact .inr rfl
  · refine .read h (.inl ?_)
    split
    · rfl
    split <;> rfl
  · cases h
    exact .save (fun _ => rfl) (fun _ => rfl) fun _ h => h
  · refine .read h ?_
    split
    next hpending _ =>
      split
      · exact .inl rfl
      · exact .inr (pendingCheck_eq hpending).symm
    next => exact .inl rfl
  · split at h
    · cases h
      exact .stay (.inr (.inl rfl)) rfl rfl rfl
    · exact .read h (.inl rfl)
  · cases h
    exact {
      check := .inr (.inl rfl)
      sessions := fun _ _ hs => .inr (sessions_self rfl hs)
      devices := fun _ _ hd => .inr hd
      users := fun _ _ hu => versions_modify (fun _ => by exact le_rfl) hu }
  · dsimp only at h
    split at h
    · exact .read h (.inl rfl)
    · cases h
      exact .stay (.inl rfl) rfl rfl rfl
  · split at h
    · exact .read h (.inl rfl)
    next user huser =>
    cases h
    exact {
      check := .inl rfl
      sessions := fun _ _ hs => .inr (sessions_self rfl hs)
      devices := fun _ _ hd => .inr hd
      users := fun u user' hu => by
        rw [Table.lookup_modify] at hu
        split at hu
        next heq =>
          rw [huser] at hu
          cases hu
          exact ⟨user, heq ▸ huser, Nat.le_succ _⟩
        next => exact ⟨user', hu, le_rfl⟩ }
  · split at h
    · cases h
    · exact .read h (.inl rfl)
  · split at h
    · cases h
    · exact .read h (.inl rfl)
  · refine .read h (.inl ?_)
    split <;> rfl
  · refine .read h (.inl ?_)
    split <;> rfl
  · cases h
    exact .erase (.inl rfl)
  · cases h
    exact {
      check := .inl rfl
      sessions := fun _ _ hs => .inr (sessions_self rfl hs)
      devices := fun id d hd => by
        rw [Table.lookup_delete] at hd
        exact .inr (Option.filter_eq_some_iff.mp hd).1
      users := fun _ user' hu => ⟨user', hu, le_rfl⟩ }
  · cases h

/-! ## From the first SCAN on -/

/-- The session signs in the user on a check against the hash of version `v`. -/
def Session.owes (session : Session) (u : UserId) (v : Nat) : Prop := session.userId = some u ∧ session.check = some (u, v)

/-- Nothing is under way or pending on a check of the user against the hash of version `v`. -/
structure Quiet (s : State) (u : UserId) (v : Nat) : Prop where
  requests : ∀ p ∈ s.requests, p.check ≠ some (u, v)
  sessions : ∀ sid session, s.world.sessions.lookup sid = some session → session.pendingCheck ≠ some (u, v)

/-- The user has a newer hash than the one of version `v`. -/
def Newer (w : World) (u : UserId) (v : Nat) : Prop := ∀ user, w.users.lookup u = some user → v < user.version

/-- Only the sessions of `keys` may still owe themselves to a check against the hash. -/
structure Cleared (s : State) (u : UserId) (v : Nat) (keys : List Sid) : Prop where
  newer : Newer s.world u v
  quiet : Quiet s u v
  sessions : ∀ sid session, s.world.sessions.lookup sid = some session → session.owes u v → sid ∈ keys

/-- A reset at its SCAN holds the keys that still have to go. -/
def Phase.Clears (s : State) : Phase → Prop
  | .scanFirst u v => Newer s.world u v
  | .scan u v todo => Cleared s u v todo
  | .visit u v ks todo last => Cleared s u v (ks ++ if last then [] else todo)
  | .del u v k ks todo last => Cleared s u v (k :: (ks ++ if last then [] else todo))
  | .forget u v => Cleared s u v []
  | _ => True

/-- What an answered reset has ended. -/
structure Ended (s : State) (u : UserId) (v : Nat) : Prop where
  cleared : Cleared s u v []
  devices : ∀ id d, s.world.devices.lookup id = some d → d.user_id = u → d.check ≠ some (u, v)

/-- The requests and their resets, beside the ones that have answered. -/
structure Inv (s : State) : Prop where
  clears : ∀ p ∈ s.requests, p.Clears s
  ended : ∀ u v, (u, v) ∈ s.world.resets → Ended s u v

/-- The request is a reset, at a statement after it set the hash. -/
def Phase.resetting : Phase → Bool
  | .setHash _ | .scanFirst .. | .scan .. | .visit .. | .del .. | .forget .. => true
  | _ => false

/-- The steps of the other requests, and those of a reset that has not set the hash. -/
theorem run_other (h : w.run lib p pick = some (w', p')) (hp : p.resetting = false) :
    p'.Clears s ∧ w'.resets = w.resets := by
  unfold World.run at h
  split at h
  case h_37 | h_38 | h_39 | h_40 | h_41 | h_42 | h_36 => cases hp
  case h_1 | h_43 => cases h
  all_goals
    try dsimp only at h
    repeat' split at h
    all_goals cases h <;> exact ⟨trivial, rfl⟩

theorem run_step {i : Nat} (h : step lib s (.run i pick) = some s') : ∃ p w' p', s.requests[i]? = some p ∧
    s.world.run lib p pick = some (w', p') ∧ s' = { world := w', requests := s.requests.set i p' } := by
  rw [step] at h
  split at h
  · cases h
  next p hp =>
    obtain ⟨⟨w', p'⟩, hrun, rfl⟩ := Option.map_eq_some_iff.mp h
    exact ⟨p, w', p', hp, hrun, rfl⟩

/-- The state after a request at `p` moved to `p'`. -/
structure Ran (s s' : State) (p p' : Phase) : Prop where
  check : ∀ {u v}, Quiet s u v → p.check ≠ some (u, v)
  moves : Moves s.world p s'.world p'
  requests : ∀ q ∈ s'.requests, q = p' ∨ q ∈ s.requests

theorem Newer.mono (h : Newer w u v)
    (hu : ∀ u user', w'.users.lookup u = some user' → ∃ user, w.users.lookup u = some user ∧ user.version ≤ user'.version) :
    Newer w' u v := fun user' hu' => by
  obtain ⟨user, huser, hle⟩ := hu u user' hu'
  exact (h user huser).trans_le hle

theorem pendingCheck_of {session' : Session} (hcheck : session'.check = session.check)
    (hp : session'.pendingUserId.isSome = true → session.pendingUserId.isSome = true)
    (h : session'.pendingCheck = some (u, v)) : session.pendingCheck = some (u, v) := by
  rw [Session.pendingCheck] at h ⊢
  split at h
  next hsome => rw [if_pos (hp hsome), ← hcheck, h]
  next => cases h

theorem check_of_pendingCheck (h : session.pendingCheck = some (u, v)) : session.check = some (u, v) := by
  rw [Session.pendingCheck] at h
  split at h
  · exact h
  · cases h

/-- Once quiet, always quiet: what a request signs in on is of the hash that is stored now. -/
theorem Ran.quiet (h : Ran s s' p p') (hnew : Newer s.world u v) (hq : Quiet s u v) : Quiet s' u v where
  requests q hmem := by
    rcases h.requests q hmem with rfl | hmem
    · rcases h.moves.check with hnone | hsame | ⟨u', user, huser, hcheck⟩
      · rw [hnone]
        exact fun h => by cases h
      · rw [hsame]
        exact h.check hq
      · rw [hcheck]
        intro heq
        cases heq
        exact lt_irrefl _ (hnew user huser)
    · exact hq.requests q hmem
  sessions sid session' hs hp := by
    rcases h.moves.sessions sid session' hs with hnew | ⟨session, hold, hcheck, -, hpending⟩
    · exact h.check hq (hnew.symm.trans (check_of_pendingCheck hp))
    · exact hq.sessions sid session hold (pendingCheck_of hcheck hpending hp)

theorem Ran.cleared (h : Ran s s' p p') (hc : Cleared s u v keys) : Cleared s' u v keys where
  newer := hc.newer.mono h.moves.users
  quiet := h.quiet hc.newer hc.quiet
  sessions sid session' hs howes := by
    rcases h.moves.sessions sid session' hs with hnew | ⟨session, hold, hcheck, huser, -⟩
    · exact absurd (hnew.symm.trans howes.2) (h.check hc.quiet)
    · exact hc.sessions sid session hold ⟨huser ▸ howes.1, hcheck ▸ howes.2⟩

theorem Ran.ended (h : Ran s s' p p') (he : Ended s u v) : Ended s' u v where
  cleared := h.cleared he.cleared
  devices id d hd huser hcheck := by
    rcases h.moves.devices id d hd with hnew | hold
    · exact h.check he.cleared.quiet (hnew.symm.trans hcheck)
    · exact he.devices id d hold huser hcheck

theorem Ran.clears {q : Phase} (h : Ran s s' p p') (hq : q.Clears s) : q.Clears s' := by
  cases q with
  | scanFirst u v => exact Newer.mono hq h.moves.users
  | scan u v todo => exact h.cleared hq
  | visit u v ks todo last => exact h.cleared hq
  | del u v k ks todo last => exact h.cleared hq
  | forget u v => exact h.cleared hq
  | _ => trivial

theorem Cleared.subset {keys' : List Sid} (h : Cleared s u v keys) (hsub : ∀ sid session, s.world.sessions.lookup sid = some session →
    session.owes u v → sid ∈ keys → sid ∈ keys') : Cleared s u v keys' where
  newer := h.newer
  quiet := h.quiet
  sessions sid session hs howes := hsub sid session hs howes (h.sessions sid session hs howes)

/-- A step of a reset that has set the hash. The first SCAN comes when everything on the hash is over. -/
theorem run_resetting (hrun : s.world.run lib p pick = some (s'.world, p')) (h : Ran s s' p p') (hc : p.Clears s)
    (hp : p.resetting = true) (hquiet : ∀ u v ks last, p = .scanFirst u v → pick = .keys ks last → Quiet s u v) :
    p'.Clears s' ∧ (s'.world.resets = s.world.resets ∨
      ∃ u v, s'.world.resets = (u, v) :: s.world.resets ∧ Ended s' u v) := by
  have hstay {q : Phase} (heq : some (s.world, q) = some (s'.world, p')) (hq : q.Clears s) :
      p'.Clears s' ∧ (s'.world.resets = s.world.resets ∨ ∃ u v, s'.world.resets = (u, v) :: s.world.resets ∧ Ended s' u v) := by
    obtain ⟨hw, rfl⟩ := Prod.mk.inj (Option.some.inj heq)
    exact ⟨h.clears hq, .inl (hw ▸ rfl)⟩
  cases p with
  | setHash u =>
    cases pick with
    | stop => exact hstay hrun trivial
    | text hash =>
      simp only [World.run] at hrun
      split at hrun
      · exact hstay hrun trivial
      next user huser =>
      obtain ⟨hw, rfl⟩ := Prod.mk.inj (Option.some.inj hrun)
      refine ⟨fun user' huser' => ?_, .inl (hw ▸ rfl)⟩
      rw [← hw, Table.lookup_modify, if_pos rfl, huser] at huser'
      obtain rfl := Option.some.inj huser'
      exact Nat.lt_succ_self _
    | _ => cases hrun
  | scanFirst u v =>
    cases pick with
    | stop => exact hstay hrun trivial
    | keys ks last =>
      simp only [World.run] at hrun
      split at hrun
      · cases hrun
      next hlast =>
      refine hstay hrun ⟨hc, hquiet u v ks last rfl rfl, fun sid session hs _ => ?_⟩
      have hmem : sid ∈ s.world.sessions.keys := AList.mem_keys.mp (AList.lookup_isSome.mp (by rw [hs]; rfl))
      by_cases hks : ks.contains sid = true
      · exact List.mem_append_left _ (List.contains_iff_mem.mp hks)
      have hopen : last = false := by
        by_contra hl
        rw [Bool.not_eq_false] at hl
        simp only [hl, Bool.true_and, Bool.not_eq_true', Bool.not_eq_false, List.all_eq_true] at hlast
        exact hks (hlast sid hmem)
      rw [hopen]
      exact List.mem_append_right _ (List.mem_filter.mpr ⟨hmem, by simpa using hks⟩)
    | _ => cases hrun
  | scan u v todo =>
    cases pick with
    | stop => exact hstay hrun trivial
    | keys ks last =>
      simp only [World.run] at hrun
      split at hrun
      · cases hrun
      next hlast =>
      refine hstay hrun (Cleared.subset hc fun sid session hs _ hmem => ?_)
      by_cases hks : ks.contains sid = true
      · exact List.mem_append_left _ (List.contains_iff_mem.mp hks)
      have hopen : last = false := by
        by_contra hl
        rw [Bool.not_eq_false] at hl
        simp only [hl, Bool.true_and, Bool.not_eq_true', Bool.not_eq_false, List.all_eq_true, Bool.or_eq_true,
          Option.isNone_iff_eq_none] at hlast
        rcases hlast sid hmem with hin | hnone
        · exact hks hin
        · cases hnone.symm.trans hs
      rw [hopen]
      exact List.mem_append_right _ (List.mem_filter.mpr ⟨hmem, by simpa using hks⟩)
    | _ => cases hrun
  | visit u v ks todo last =>
    cases pick with
    | stop =>
      refine hstay (q := .done) ?_ trivial
      rw [← hrun]
      cases ks <;> rfl
    | next =>
      cases ks with
      | nil =>
        refine hstay hrun ?_
        split
        next hlast =>
          rw [hlast] at hc
          exact hc
        next hopen =>
          rw [Bool.not_eq_true] at hopen
          rw [hopen] at hc
          exact hc
      | cons k ks =>
        refine hstay hrun ?_
        split
        · exact hc
        next hnot =>
        -- the session under the key is of another user, or gone
        refine Cleared.subset hc fun sid session hs howes hmem => (List.mem_cons.mp hmem).resolve_left ?_
        rintro rfl
        refine hnot ?_
        rw [hs]
        exact decide_eq_true howes.1
    | _ => cases ks <;> cases hrun
  | del u v k ks todo last =>
    cases pick with
    | stop => exact hstay hrun trivial
    | next =>
      have hc' : Cleared s' u v _ := h.cleared hc
      simp only [World.run] at hrun
      obtain ⟨hw, rfl⟩ := Prod.mk.inj (Option.some.inj hrun)
      refine ⟨hc'.subset fun sid session hs _ hmem => (List.mem_cons.mp hmem).resolve_left ?_, .inl (hw ▸ rfl)⟩
      rintro rfl
      rw [← hw, Table.lookup_erase', if_pos rfl] at hs
      cases hs
    | _ => cases hrun
  | forget u v =>
    cases pick with
    | stop => exact hstay hrun trivial
    | next =>
      have hc' : Cleared s' u v [] := h.cleared hc
      simp only [World.run] at hrun
      obtain ⟨hw, rfl⟩ := Prod.mk.inj (Option.some.inj hrun)
      refine ⟨trivial, .inr ⟨u, v, hw ▸ rfl, hc', fun id d hd huser _ => ?_⟩⟩
      rw [← hw, Table.lookup_delete] at hd
      obtain ⟨-, hne⟩ := Option.filter_eq_some_iff.mp hd
      simp [huser] at hne
    | _ => cases hrun
  | _ => cases hp

/-! ## Every run -/

theorem change_moves (c : Change) : Moves w .done (w.change c) .done := by
  have hmodify {f : User → User} (hf : ∀ user, user.version ≤ (f user).version) (uid : UserId) :
      Moves w .done { w with users := w.users.modify uid f } .done :=
    ⟨.inl rfl, fun _ _ hs => .inr (sessions_self rfl hs), fun _ _ hd => .inr hd, fun _ _ hu => versions_modify hf hu⟩
  cases c with
  | tick | settings | forgot => exact .stay (.inl rfl) rfl rfl rfl
  | totpOff uid => exact hmodify (fun _ => by exact le_rfl) uid
  | totpOn uid secret =>
    refine hmodify (fun user => ?_) uid
    split <;> exact le_rfl
  | disabled uid b => exact hmodify (fun _ => by exact le_rfl) uid
  | recovery uid toEmail changed =>
    obtain ⟨hc, hs, hd, hu⟩ := hmodify (f := fun user => { user with recovery_email := toEmail }) (fun _ => by exact le_rfl) uid
    exact ⟨hc, hs, hd, hu⟩
  | signOut sid => exact .erase (.inl rfl)

theorem Ran.change (c : Change) : Ran s { s with world := s.world.change c } .done .done where
  check _ h := by cases h
  moves := change_moves c
  requests _ hmem := .inr hmem

theorem change_resets {c : Change} : (w.change c).resets = w.resets := by
  cases c <;> rfl

/-- A request that comes in was loaded with a session that is stored. -/
theorem receive_check {r : Request} (hq : Quiet s u v) : (s.world.receive r).check ≠ some (u, v) := by
  have hload (sid : Sid) : ((s.world.sessions.lookup sid).getD {}).pendingCheck ≠ some (u, v) := by
    cases hs : s.world.sessions.lookup sid with
    | none => exact fun h => by cases h
    | some session => exact hq.sessions sid session hs
  cases r with
  | challenge sid | verify sid | enable sid => exact hload sid
  | _ => exact fun h => by cases h

theorem Cleared.receive {r : Request} (hc : Cleared s u v keys) :
    Cleared { s with requests := s.requests ++ [s.world.receive r] } u v keys where
  newer := hc.newer
  quiet := {
    requests := fun p hmem => by
      rcases List.mem_append.mp hmem with hmem | hmem
      · exact hc.quiet.requests p hmem
      · rw [List.mem_singleton.mp hmem]
        exact receive_check hc.quiet
    sessions := hc.quiet.sessions }
  sessions := hc.sessions

theorem clears_receive {r : Request} {q : Phase} (hq : q.Clears s) :
    q.Clears { s with requests := s.requests ++ [s.world.receive r] } := by
  cases q with
  | scanFirst u v => exact hq
  | scan u v todo => exact Cleared.receive hq
  | visit u v ks todo last => exact Cleared.receive hq
  | del u v k ks todo last => exact Cleared.receive hq
  | forget u v => exact Cleared.receive hq
  | _ => trivial

/-- Nothing is under way or pending on a check of the user against the hash of version `v`. -/
def State.quiet (s : State) (u : UserId) (v : Nat) : Bool :=
  s.requests.all (fun p => p.check ≠ some (u, v)) &&
    s.world.sessions.entries.all fun e => e.2.pendingCheck ≠ some (u, v)

theorem Quiet.of_quiet (h : s.quiet u v = true) : Quiet s u v := by
  simp only [State.quiet, Bool.and_eq_true, List.all_eq_true, decide_eq_true_eq] at h
  exact ⟨h.1, fun sid session hs => h.2 ⟨sid, session⟩ (Table.mem_entries.mpr hs)⟩

/-- A reset makes its first SCAN once every sign-in on the hash it replaced is over: none is under way, and no session awaits
its second step on it. -/
def settled (s : State) : Label → Bool
  | .run i (.keys _ _) =>
    match s.requests[i]? with
    | some (.scanFirst u v) => s.quiet u v
    | _ => true
  | _ => true

theorem inv_step {l : Label} (h : Inv s) (hg : settled s l = true) (hstep : step lib s l = some s') : Inv s' := by
  cases l with
  | change c =>
    obtain rfl := Option.some.inj hstep
    refine ⟨fun p hmem => (Ran.change c).clears (h.clears p hmem), fun u v hmem => ?_⟩
    exact (Ran.change c).ended (h.ended u v (change_resets ▸ hmem))
  | receive r =>
    obtain rfl := Option.some.inj hstep
    refine ⟨fun p hmem => ?_, fun u v hmem => ⟨(h.ended u v hmem).cleared.receive, (h.ended u v hmem).devices⟩⟩
    rcases List.mem_append.mp hmem with hmem | hmem
    · exact clears_receive (h.clears p hmem)
    · rw [List.mem_singleton.mp hmem]
      cases r <;> trivial
  | run i pick =>
    obtain ⟨p, w', p', hp, hrun, rfl⟩ := run_step hstep
    have hmem := List.mem_of_getElem? hp
    have hran : Ran s { world := w', requests := s.requests.set i p' } p p' :=
      ⟨fun hq => hq.requests p hmem, run_moves hrun, fun q hq => (List.mem_or_eq_of_mem_set hq).symm⟩
    have hself : p'.Clears { world := w', requests := s.requests.set i p' } ∧ (w'.resets = s.world.resets ∨
        ∃ u v, w'.resets = (u, v) :: s.world.resets ∧ Ended { world := w', requests := s.requests.set i p' } u v) := by
      cases hreset : p.resetting with
      | false =>
        obtain ⟨hclears, hresets⟩ := run_other hrun hreset
        exact ⟨hclears, .inl hresets⟩
      | true =>
        refine run_resetting hrun hran (h.clears p hmem) hreset fun u v ks last hscan hkeys => .of_quiet ?_
        subst hscan hkeys
        rw [settled, hp] at hg
        exact hg
    refine ⟨fun q hq => ?_, fun u v hmem => ?_⟩
    · rcases hran.requests q hq with rfl | hold
      · exact hself.1
      · exact hran.clears (h.clears q hold)
    · rcases hself.2 with hsame | ⟨u', v', hresets, hended⟩
      · exact hran.ended (h.ended u v (hsame ▸ hmem))
      · have hmem : (u, v) ∈ w'.resets := hmem
        rw [hresets] at hmem
        rcases List.mem_cons.mp hmem with heq | hmem
        · obtain ⟨rfl, rfl⟩ := Prod.mk.inj heq
          exact hended
        · exact hran.ended (h.ended u v hmem)

theorem inv_invariant : (system lib).Invariant (fun s l => settled s l = true) Inv where
  init hi := by
    refine ⟨fun p hmem => ?_, fun u v hmem => ?_⟩
    · rw [hi.2] at hmem
      cases hmem
    · rw [hi.1.resets] at hmem
      cases hmem
  step := inv_step

/-- Once a reset of the user has answered ok, no session owes the user to a check against the hash it replaced, none awaits its
second step on one, no request can still bring one about, and no trusted device that such a sign-in recorded is left, in every
run in which the reset makes its first SCAN when the sign-ins on that hash are over. -/
theorem reset_ends (hs : (system lib).ReachesUnder (fun s l => settled s l = true) s) (hreset : (u, v) ∈ s.world.resets) :
    (∀ sid session, s.world.sessions.lookup sid = some session → ¬session.owes u v ∧ session.pendingCheck ≠ some (u, v)) ∧
    (∀ p ∈ s.requests, p.check ≠ some (u, v)) ∧
    ∀ id d, s.world.devices.lookup id = some d → d.user_id = u → d.check ≠ some (u, v) := by
  have h := (inv_invariant.reachesUnder hs).ended u v hreset
  refine ⟨fun sid session hsid => ⟨fun howes => ?_, h.cleared.quiet.sessions sid session hsid⟩, h.cleared.quiet.requests, h.devices⟩
  exact absurd (h.cleared.sessions sid session hsid howes) List.not_mem_nil

def anna : User where
  username := "anna"
  password_hash := "hash 0"
  recovery_email := "anna@example.com"

/-- The steps of request `i`, a reset that finds one session. -/
def resetLabels (i : Nat) (sid : Sid) : List Label :=
  [.receive (.reset "token"), .run i .next, .run i (.text "hash 1"), .run i (.keys [sid] true), .run i .next]

/-- A sign-in that is over when the reset begins. -/
theorem reset_ends_signed_in : ∃ s : State, (system exampleLibrary).ReachesUnder (fun s l => settled s l = true) s ∧
    (1, 0) ∈ s.world.resets ∧
    ∀ sid session, s.world.sessions.lookup sid = some session → ¬session.owes 1 0 := by
  have htrace : ((system exampleLibrary).exec (fun s l => settled s l = true) (exampleState anna {})
      ([.receive (.login 7 { username := "anna", password := "old password", cookie := none }), .run 0 .next, .run 0 (.row 1),
        .run 0 .next, .run 0 .next, .run 0 .next, .run 0 .next] ++ resetLabels 1 0 ++ [.run 1 .next, .run 1 .next, .run 1 .next])).any
      (fun s => s.world.resets.contains (1, 0) && s.world.opened.length = 1) = true := by
    decide +kernel
  obtain ⟨s, hs, hp⟩ := TransitionSystem.reaches_of_exec exampleState_init htrace
  simp only [Bool.and_eq_true, List.contains_iff_mem] at hp
  exact ⟨s, hs, hp.1, fun sid session hsid => ((reset_ends hs hp.1).1 sid session hsid).1⟩

/-- A second step that is pending when the reset begins signs in after it has answered. -/
theorem reset_ends_pending : ∃ s : State, (system exampleLibrary).Reachable s ∧ (1, 0) ∈ s.world.resets ∧
    ∃ sid session, s.world.sessions.lookup sid = some session ∧ session.owes 1 0 := by
  have htrace : ((system exampleLibrary).exec TransitionSystem.anyStep
      (exampleState { anna with totp_secret := "GEZDGNBVGY3TQOJQ", totp_enabled := true } {})
      ([.receive (.login 7 { username := "anna", password := "old password", cookie := none }), .run 0 .next, .run 0 (.row 1),
        .run 0 .next, .run 0 .next, .run 0 .next, .run 0 .next] ++ resetLabels 1 0 ++ [.run 1 .next, .run 1 .next] ++
        [.receive (.challenge 0 "287 082" false), .run 2 .next, .run 2 .next, .run 2 .next, .run 2 .next, .run 2 .next])).any
      (fun s => s.world.resets.contains (1, 0) &&
        (s.world.sessions.lookup 1).any fun session => session.userId = some 1 && session.check = some (1, 0)) = true := by
    decide +kernel
  obtain ⟨s, hs, hp⟩ := TransitionSystem.reaches_of_exec exampleState_init htrace
  simp only [Bool.and_eq_true, List.contains_iff_mem, Option.any_eq_true, decide_eq_true_eq] at hp
  obtain ⟨hreset, session, hsid, howes⟩ := hp
  exact ⟨s, hs, hreset, 1, session, hsid, howes⟩

end MailExpert.SignIn
