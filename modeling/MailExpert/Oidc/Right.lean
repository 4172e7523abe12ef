import MailExpert.Oidc.Unlink

/-!
# Single sign-on signs in the right user once
-/

namespace MailExpert.Oidc

variable {toLowerCase : String → String} {s : State}

/-- A callback opens a session or links an identity only for the flow that its own session started last, less than ten minutes before,
and once for each flow; the user of an opened session is not disabled, and the user of a link is the one who was signed in when the flow
started and still is; an identity has one user; an unlink leaves its user a way to sign in. -/
theorem sso_right (h : (system toLowerCase).ReachesUnder (fun s l => steady s l = true) s) :
    (∀ x ∈ s.world.uses, x.Sound) ∧ (s.world.uses.map (·.callback.pending.state)).Nodup ∧
      (∀ k k' i i', s.world.identities.lookup k = some i → s.world.identities.lookup k' = some i' → i.issuer = i'.issuer →
        i.subject = i'.subject → i.user_id = i'.user_id) ∧
      ∀ (i : Nat) uid id count answer s', s.requests[i]? = some (.unlinkDelete uid id count) → steady s (.run i answer) = true →
        step toLowerCase s (.run i answer) = some s' → ∀ u user, s.world.users.lookup u = some user → user.hasPassword = false →
          s.world.HasIdentity u → s'.world.HasIdentity u := by
  have hs := inv_invariant.reachesUnder h
  refine ⟨hs.world.sound, hs.world.once, fun k k' i i' hk hk' hiss hsub => ?_, fun i uid id count answer s' hi hsteady hstep u user => ?_⟩
  · obtain rfl := hs.world.identities.unique k k' i i' hk hk' hiss hsub
    rw [hk] at hk'
    cases hk'
    rfl
  · exact unlink_leaves (unlinks_invariant.reachable h.reachable) hi hsteady hstep

/-- One provider, and nobody yet. -/
def exampleState : State where
  world := {
    now := 0, users := ∅, nextUser := 0, sessions := ∅, nextSid := 0, identities := ∅, nextIdentity := 0
    providers := (∅ : Table ProviderId Provider).insert 0 { slug := "idp" } }
  requests := []

theorem exampleState_initial : (system fun text => text).init exampleState := ⟨⟨rfl, rfl, rfl, rfl, rfl⟩, rfl⟩

/-- What the provider says of the user, for the flow of this nonce. -/
def examplePayload (nonce : Nat) : Payload :=
  { nonce, iss := "https://idp.example.com", sub := "anna", email := some "anna@example.com", email_verified := true }

/-- A user signs in with a password and links an identity. -/
def linking : List Label :=
  [.change (.addUser { username := "anna", hasPassword := true }), .change (.signIn none 0),
    .start (some 0) .link "idp", .run 0 .next, .run 0 .next, .run 0 .next,
    .callback 0 { code := some "a", state := some 0 }, .run 1 .next, .run 1 .next, .run 1 (.tokens (examplePayload 0)), .run 1 .next, .run 1 .next]

/-- A sign-in with that identity, up to the row of its user. -/
def signingIn : List Label :=
  [.start none .login "idp", .run 2 .next, .run 2 .next, .run 2 .next,
    .callback 1 { code := some "b", state := some 1 }, .run 3 .next, .run 3 .next, .run 3 (.tokens (examplePayload 1)), .run 3 .next, .run 3 .next,
    .run 3 .next, .run 3 .next]

/-- Anna links an identity, signs out and signs in with it. -/
theorem sso_right_linked : ∃ s, (system fun text => text).ReachesUnder (fun s l => steady s l = true) s ∧
    s.world.uses.length = 2 ∧ (∀ x ∈ s.world.uses, x.Sound) ∧ (s.world.uses.map (·.callback.pending.state)).Nodup := by
  have htrace : ((system fun text => text).exec (fun s l => steady s l = true) exampleState
      (linking ++ [.change (.endSession 0)] ++ signingIn)).any (fun s => decide (s.world.uses.length = 2)) = true := by decide +kernel
  obtain ⟨s, hs, hp⟩ := TransitionSystem.reaches_of_exec exampleState_initial htrace
  obtain ⟨hsound, honce, -⟩ := sso_right hs
  exact ⟨s, hs, of_decide_eq_true hp, hsound, honce⟩

/-- The same after an administrator disabled her: a session is opened for a row that says disabled. -/
theorem sso_right_disabled : ∃ s x row, (system fun text => text).Reachable s ∧ x ∈ s.world.uses ∧ x.effect = .opened row ∧
    row.disabled = true ∧ ¬x.Sound := by
  have htrace : ((system fun text => text).exec TransitionSystem.anyStep exampleState
      (linking ++ [.change (.setDisabled 0 true), .change (.endSession 0)] ++ signingIn)).any (fun s => s.world.uses.any fun x =>
        match x.effect with | .opened row => row.disabled | _ => false) = true := by decide +kernel
  obtain ⟨s, hs, hp⟩ := TransitionSystem.reaches_of_exec exampleState_initial htrace
  obtain ⟨x, hx, hopened⟩ := List.any_eq_true.mp hp
  cases heffect : x.effect with
  | linked session => simp [heffect] at hopened
  | opened row =>
    rw [heffect] at hopened
    have hdisabled : row.disabled = true := hopened
    refine ⟨s, x, row, hs, hx, heffect, hdisabled, fun hsound => ?_⟩
    have henabled := hsound.enabled row heffect
    rw [hdisabled] at henabled
    cases henabled

end MailExpert.Oidc
