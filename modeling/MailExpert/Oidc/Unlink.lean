import MailExpert.Oidc.Overlaps

/-!
# An unlink leaves a way to sign in

A user whose password an unlink read keeps it, and one whose identities it counted has another while they are still there
(`unlink_leaves`).
-/

namespace MailExpert.Oidc

variable {toLowerCase : String → String} {w w' : World} {s s' : State} {p p' : Phase} {c : Callback} {answer : Answer} {uid : UserId}
  {user : User} {i j : Nat} {id : IdentityId}

def World.HasIdentity (w : World) (uid : UserId) : Prop := ∃ k i, w.identities.lookup k = some i ∧ i.user_id = uid

/-- What a step leaves of the users. -/
structure Rows (w w' : World) : Prop where
  nextUser : w.nextUser ≤ w'.nextUser
  known : (∀ uid user, w.users.lookup uid = some user → uid < w.nextUser) →
    ∀ uid user, w'.users.lookup uid = some user → uid < w'.nextUser
  password : ∀ uid user', uid < w.nextUser → w'.users.lookup uid = some user' →
    ∃ user, w.users.lookup uid = some user ∧ (user.hasPassword = true → user'.hasPassword = true)

theorem Rows.of_eq (hu : w'.users = w.users) (hn : w'.nextUser = w.nextUser) : Rows w w' where
  nextUser := hn.ge
  known h uid user hlookup := hn ▸ h uid user (hu ▸ hlookup)
  password _ user _ h := ⟨user, hu ▸ h, fun h => h⟩

theorem Rows.insert (hu : w'.users = w.users.insert w.nextUser user) (hn : w'.nextUser = w.nextUser + 1) : Rows w w' where
  nextUser := hn ▸ Nat.le_succ _
  known h uid user' hlookup := by
    rw [hu, Table.lookup_insert'] at hlookup
    rw [hn]
    split at hlookup
    next heq => exact heq ▸ Nat.lt_succ_self _
    next => exact (h uid user' hlookup).trans (Nat.lt_succ_self _)
  password uid user' hlt hlookup := by
    rw [hu, Table.lookup_insert', if_neg (Nat.ne_of_lt hlt)] at hlookup
    exact ⟨user', hlookup, fun h => h⟩

theorem Rows.modify {f : User → User} (hu : w'.users = w.users.modify uid f) (hn : w'.nextUser = w.nextUser)
    (hf : ∀ user, user.hasPassword = true → (f user).hasPassword = true) : Rows w w' where
  nextUser := hn.ge
  known h k user' hlookup := by
    rw [hu, Table.lookup_modify] at hlookup
    rw [hn]
    split at hlookup
    next heq =>
      obtain ⟨user, huser, -⟩ := Option.map_eq_some_iff.mp hlookup
      exact heq ▸ h uid user huser
    next => exact h k user' hlookup
  password k user' _ hlookup := by
    rw [hu, Table.lookup_modify] at hlookup
    split at hlookup
    next heq =>
      obtain ⟨user, huser, rfl⟩ := Option.map_eq_some_iff.mp hlookup
      exact ⟨user, heq ▸ huser, hf user⟩
    next => exact ⟨user', hlookup, fun h => h⟩

theorem Rows.erase (hu : w'.users = w.users.erase uid) (hn : w'.nextUser = w.nextUser) : Rows w w' where
  nextUser := hn.ge
  known h k user' hlookup := by
    rw [hu, Table.lookup_erase'] at hlookup
    rw [hn]
    split at hlookup
    · cases hlookup
    · exact h k user' hlookup
  password k user' _ hlookup := by
    rw [hu, Table.lookup_erase'] at hlookup
    split at hlookup
    · cases hlookup
    · exact ⟨user', hlookup, fun h => h⟩

theorem change_rows {c : Change} : Rows w (w.change c) := by
  cases c with
  | addUser user => exact .insert rfl rfl
  | setDisabled uid disabled => exact .modify (f := fun user => { user with disabled }) rfl rfl fun _ h => h
  | setPassword uid => exact .modify (f := fun user => { user with hasPassword := true }) rfl rfl fun _ _ => rfl
  | deleteUser uid => exact .erase rfl rfl
  | _ => exact .of_eq rfl rfl

theorem upsert_rows {pid : ProviderId} {payload : Payload} : (w.upsertIdentity uid pid payload).users = w.users ∧
    (w.upsertIdentity uid pid payload).nextUser = w.nextUser := by
  unfold World.upsertIdentity
  split <;> exact ⟨rfl, rfl⟩

theorem run_rows (h : w.run toLowerCase p answer = some (w', p')) : Rows w w' := by
  unfold World.run at h
  split at h
  case h_4 r pid time =>
    cases h
    unfold World.savePending
    dsimp only
    split
    · exact .of_eq rfl rfl
    · split <;> exact .of_eq rfl rfl
  case h_9 | h_10 =>
    split at h <;> cases h
    all_goals exact .of_eq rfl rfl
  case h_15 c username payload =>
    split at h
    · cases h
      exact .of_eq rfl rfl
    · cases h
      exact .insert upsert_rows.1 upsert_rows.2
  case h_16 =>
    split at h
    · cases h
      exact .of_eq upsert_rows.1 upsert_rows.2
    · cases h
      exact .of_eq rfl rfl
  case h_24 => cases h
  all_goals
    cases h
    exact .of_eq rfl rfl

/-- An unlink deletes while the user has a password, or counted another identity. -/
def Phase.Counts (w : World) : Phase → Prop
  | .unlinkDelete uid _ none => uid < w.nextUser ∧ ∀ user, w.users.lookup uid = some user → user.hasPassword = true
  | .unlinkDelete _ _ (some n) => 2 ≤ n
  | _ => True

theorem Phase.Counts.keeps (h : p.Counts w) (hrows : Rows w w') : p.Counts w' := by
  unfold Phase.Counts at h ⊢
  split at h
  next uid _ =>
    refine ⟨h.1.trans_le hrows.nextUser, fun user' hlookup => ?_⟩
    obtain ⟨user, huser, hpassword⟩ := hrows.password uid user' h.1 hlookup
    exact hpassword (h.2 user huser)
  next => exact h
  next => trivial

structure Unlinks (s : State) : Prop where
  known : ∀ uid user, s.world.users.lookup uid = some user → uid < s.world.nextUser
  counts : ∀ p ∈ s.requests, p.Counts s.world

theorem verified_counts {provider : Provider} {payload : Payload} : (c.verified toLowerCase provider payload).Counts w := by
  unfold Callback.verified
  split
  · trivial
  split
  · trivial
  split
  · trivial
  split
  · split <;> trivial
  · trivial

theorem provisioning_counts {provider : Provider} {payload : Payload} : (c.provisioning toLowerCase provider payload).Counts w := by
  unfold Callback.provisioning
  split
  · split <;> trivial
  · split <;> trivial
  · trivial

theorem run_counts (hknown : ∀ uid user, w.users.lookup uid = some user → uid < w.nextUser)
    (h : w.run toLowerCase p answer = some (w', p')) : p'.Counts w' := by
  unfold World.run at h
  split at h
  case h_1 | h_5 | h_12 | h_13 | h_14 =>
    cases h
    split <;> trivial
  case h_9 =>
    split at h <;> cases h
    exact verified_counts
  case h_10 | h_15 | h_16 =>
    split at h <;> cases h <;> trivial
  case h_11 =>
    cases h
    split
    · trivial
    · exact provisioning_counts
  case h_21 uid id =>
    cases h
    split
    next hpassword =>
      cases huser : w.users.lookup uid with
      | none => simp [huser] at hpassword
      | some user =>
        refine ⟨hknown uid user huser, fun user' huser' => ?_⟩
        rw [huser] at huser'
        cases huser'
        simpa [huser] using hpassword
    next => trivial
  case h_22 uid id =>
    cases h
    split
    next => trivial
    next hcount => exact not_le.mp hcount
  case h_24 => cases h
  all_goals
    cases h
    trivial

/-- Another identity of a user who has two. -/
theorem exists_other (h : 2 ≤ w.countIdentities uid) (id : IdentityId) :
    ∃ k i, k ≠ id ∧ w.identities.lookup k = some i ∧ i.user_id = uid := by
  have hnodup := Table.nodup_select (t := w.identities) (p := fun _ i => decide (i.user_id = uid))
  have hmem {e : IdentityId × Identity} (he : e ∈ w.identities.select fun _ i => decide (i.user_id = uid)) :
      w.identities.lookup e.1 = some e.2 ∧ e.2.user_id = uid := by
    simpa using Table.mem_select.mp he
  rw [World.countIdentities] at h
  rcases hl : w.identities.select fun _ i => decide (i.user_id = uid) with _ | ⟨a, _ | ⟨b, rest⟩⟩
  · simp [hl] at h
  · simp [hl] at h
  · rw [hl] at hnodup hmem
    obtain ⟨ha, hauid⟩ := hmem (e := a) (by simp)
    obtain ⟨hb, hbuid⟩ := hmem (e := b) (by simp)
    by_cases hid : a.1 = id
    · refine ⟨b.1, b.2, fun hbid => ?_, hb, hbuid⟩
      rw [hid] at ha
      rw [hbid, ha] at hb
      have heq : a = b := Prod.ext (hid.trans hbid.symm) (Option.some.inj hb)
      simp [heq] at hnodup
    · exact ⟨a.1, a.2, hid, ha, hauid⟩

theorem unlinks_invariant : (system toLowerCase).Invariant TransitionSystem.anyStep Unlinks where
  init h := ⟨fun uid user hu => by simp [h.1.users] at hu, fun p hp => by simp [h.2] at hp⟩
  step {s l s'} hs _ hstep := by
    have hreceive {p : Phase} (hp : p.Counts s.world) : Unlinks { s with requests := s.requests ++ [p] } := by
      refine ⟨hs.known, fun q hq => ?_⟩
      rcases List.mem_append.mp hq with hq | hq
      · exact hs.counts q hq
      · exact List.mem_singleton.mp hq ▸ hp
    cases l with
    | change c =>
      cases hstep
      exact ⟨change_rows.known hs.known, fun p hp => (hs.counts p hp).keeps change_rows⟩
    | start sid action slug =>
      cases hstep
      refine hreceive ?_
      unfold World.start
      dsimp only
      split
      · trivial
      · split <;> trivial
    | callback sid q =>
      cases hstep
      refine hreceive ?_
      unfold World.callback
      split
      · trivial
      split
      · trivial
      split
      · trivial
      split
      · trivial
      split
      · trivial
      split
      · split <;> trivial
      · trivial
    | unlink sid id =>
      cases hstep
      refine hreceive ?_
      unfold World.unlink
      split <;> trivial
    | run i answer =>
      change step toLowerCase s (.run i answer) = _ at hstep
      rw [step] at hstep
      split at hstep
      · cases hstep
      next p hi =>
        obtain ⟨⟨w', p'⟩, hrun, rfl⟩ := Option.map_eq_some_iff.mp hstep
        refine ⟨(run_rows hrun).known hs.known, fun q hq => ?_⟩
        obtain ⟨j, hj⟩ := List.mem_iff_getElem?.mp hq
        rcases (Agents.getElem?_set_some hi).mp hj with ⟨-, rfl⟩ | ⟨-, hj⟩
        · exact run_counts hs.known hrun
        · exact (hs.counts q (List.mem_of_getElem? hj)).keeps (run_rows hrun)

/-- An unlink leaves a user without a password another identity. -/
theorem unlink_leaves {count : Option Nat} (hs : Unlinks s) (hi : s.requests[i]? = some (.unlinkDelete uid id count))
    (hsteady : steady s (.run i answer) = true) (hstep : step toLowerCase s (.run i answer) = some s') {u : UserId}
    (huser : s.world.users.lookup u = some user) (hnone : user.hasPassword = false) (hhas : s.world.HasIdentity u) : s'.world.HasIdentity u := by
  change step toLowerCase s (.run i answer) = _ at hstep
  rw [step] at hstep
  rw [hi] at hstep
  obtain ⟨⟨w', p'⟩, hrun, rfl⟩ := Option.map_eq_some_iff.mp hstep
  cases answer with
  | failed | tokens => cases hrun
  | next =>
  cases hrun
  have hkept {k : IdentityId} {x : Identity} (hk : s.world.identities.lookup k = some x) (hne : ¬(k = id ∧ x.user_id = uid)) :
      (s.world.identities.delete fun k i => decide (k = id) && decide (i.user_id = uid)).lookup k = some x := by
    rw [Table.lookup_delete, hk, Option.filter_some, if_pos]
    rw [Bool.not_eq_true', ← Bool.decide_and]
    exact decide_eq_false hne
  by_cases hu : u = uid
  · subst hu
    cases count with
    | none =>
      have hpassword := (hs.counts _ (List.mem_of_getElem? hi)).2 user huser
      rw [hnone] at hpassword
      cases hpassword
    | some n =>
      have hn : 2 ≤ n := hs.counts _ (List.mem_of_getElem? hi)
      rw [steady, hi] at hsteady
      simp only [Bool.and_eq_true] at hsteady
      have hcount : n ≤ s.world.countIdentities u := of_decide_eq_true hsteady.2
      obtain ⟨k, x, hne, hk, hx⟩ := exists_other (hn.trans hcount) id
      exact ⟨k, x, hkept hk fun h => hne h.1, hx⟩
  · obtain ⟨k, x, hk, hx⟩ := hhas
    exact ⟨k, x, hkept hk fun h => hu (hx.symm.trans h.2), hx⟩

end MailExpert.Oidc
