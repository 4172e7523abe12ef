import MailExpert.Oidc.Flow

/-!
# The flows that sessions have started

A session's pending flow is the one it started last, and no other session has it (`World.Sessions`). `Keeps` says what a step leaves of
the sessions to a request that did not make it.
-/

namespace MailExpert.Oidc

variable {toLowerCase : String → String} {w w' : World} {s s' : State} {sid : Sid} {se : Session} {p p' q : Phase} {c d : Callback}
  {answer : Answer} {uid : UserId} {row : User} {payload : Payload} {provider : Provider} {r : Start} {i j : Nat} {l : Label}

/-- The sessions stored, and their flows. -/
structure World.Sessions (w : World) : Prop where
  known : ∀ sid se, w.sessions.lookup sid = some se → sid < w.nextSid
  pending : ∀ sid se p, w.sessions.lookup sid = some se → se.oidcPending = some p → p.state < w.nextState ∧
    ∃ st, w.started.find? (·.sid = sid) = some st ∧ st.pending = p ∧ p.expiresAt = st.time + TEN_MINUTES ∧ se.userId = st.userId ∧
      (p.action = .link → p.linkUserId = st.userId)
  own : ∀ sid sid' se se' p p', w.sessions.lookup sid = some se → w.sessions.lookup sid' = some se' → se.oidcPending = some p →
    se'.oidcPending = some p' → p.state = p'.state → sid = sid'

/-- The sessions of `w'` keep at most the flows that those of `w` have. -/
theorem World.Sessions.sub (h : w.Sessions) (hstarted : w'.started = w.started) (hnext : w'.nextState = w.nextState)
    (hsub : ∀ sid se', w'.sessions.lookup sid = some se' → sid < w'.nextSid ∧ ∀ p, se'.oidcPending = some p →
      ∃ se, w.sessions.lookup sid = some se ∧ se.oidcPending = some p ∧ se.userId = se'.userId) : w'.Sessions where
  known sid se hs := (hsub sid se hs).1
  pending sid se' p hs hp := by
    obtain ⟨se, hse, hpending, huser⟩ := (hsub sid se' hs).2 p hp
    rw [hstarted, hnext, ← huser]
    exact h.pending sid se p hse hpending
  own sid sid' se se' p p' hs hs' hp hp' heq := by
    obtain ⟨se₁, h₁, hp₁, -⟩ := (hsub sid se hs).2 p hp
    obtain ⟨se₂, h₂, hp₂, -⟩ := (hsub sid' se' hs').2 p' hp'
    exact h.own sid sid' se₁ se₂ p p' h₁ h₂ hp₁ hp₂ heq

/-- What a step leaves of the sessions to the others: `ended` ends by it, and `used` does its flow. -/
structure Keeps (ended : Option Sid) (used : Option Callback) (w w' : World) : Prop where
  nextState : w.nextState ≤ w'.nextState
  nextSid : w.nextSid ≤ w'.nextSid
  stored : ∀ sid se' p, w'.sessions.lookup sid = some se' → se'.oidcPending = some p →
    (∃ se, w.sessions.lookup sid = some se ∧ se.oidcPending = some p) ∨ w.nextState ≤ p.state
  user : ∀ sid se', sid < w.nextSid → w'.sessions.lookup sid = some se' →
    ∃ se, w.sessions.lookup sid = some se ∧ se.userId = se'.userId
  stays : ∀ sid se, sid < w.nextSid → ended ≠ some sid → w.sessions.lookup sid = some se →
    ∃ se', w'.sessions.lookup sid = some se' ∧ se'.userId = se.userId
  uses : ∀ x ∈ w'.uses, x ∈ w.uses ∨ used = some x.callback

variable {ended : Option Sid} {used : Option Callback}

theorem Keeps.of_sessions (hsessions : w'.sessions = w.sessions) (hsid : w'.nextSid = w.nextSid) (hstate : w'.nextState = w.nextState)
    (huses : ∀ x ∈ w'.uses, x ∈ w.uses ∨ used = some x.callback) : Keeps ended used w w' where
  nextState := hstate.ge
  nextSid := hsid.ge
  stored _ se _ hs hp := .inl ⟨se, hsessions ▸ hs, hp⟩
  user _ se _ hs := ⟨se, hsessions ▸ hs, rfl⟩
  stays _ se _ _ hs := ⟨se, hsessions ▸ hs, rfl⟩
  uses := huses

theorem Keeps.refl : Keeps ended used w w := .of_sessions rfl rfl rfl fun _ hx => .inl hx

theorem Keeps.erase (hended : ended = some sid) : Keeps ended used w { w with sessions := w.sessions.erase sid } where
  nextState := le_rfl
  nextSid := le_rfl
  stored k se p hs hp := by
    rw [Table.lookup_erase'] at hs
    split at hs
    · cases hs
    · exact .inl ⟨se, hs, hp⟩
  user k se _ hs := by
    rw [Table.lookup_erase'] at hs
    split at hs
    · cases hs
    · exact ⟨se, hs, rfl⟩
  stays k se _ hk hs := by
    refine ⟨se, ?_, rfl⟩
    rw [Table.lookup_erase', if_neg]
    · exact hs
    · rintro rfl
      exact hk hended
  uses _ hx := .inl hx

theorem Keeps.modify {f : Session → Session} (huser : ∀ se, (f se).userId = se.userId)
    (hpending : ∀ se p, (f se).oidcPending = some p → se.oidcPending = some p ∨ w.nextState ≤ p.state) :
    Keeps ended used w { w with sessions := w.sessions.modify sid f } where
  nextState := le_rfl
  nextSid := le_rfl
  stored k se' p hs hp := by
    rw [Table.lookup_modify] at hs
    split at hs
    next heq =>
      obtain ⟨se, hse, rfl⟩ := Option.map_eq_some_iff.mp hs
      exact (hpending se p hp).imp_left fun h => ⟨se, heq ▸ hse, h⟩
    next => exact .inl ⟨se', hs, hp⟩
  user k se' _ hs := by
    rw [Table.lookup_modify] at hs
    split at hs
    next heq =>
      obtain ⟨se, hse, rfl⟩ := Option.map_eq_some_iff.mp hs
      exact ⟨se, heq ▸ hse, (huser se).symm⟩
    next => exact ⟨se', hs, rfl⟩
  stays k se _ _ hs := by
    rw [Table.lookup_modify]
    split
    next heq =>
      subst heq
      rw [hs]
      exact ⟨f se, rfl, huser se⟩
    next => exact ⟨se, hs, rfl⟩
  uses _ hx := .inl hx

theorem Keeps.addSession (h : Keeps ended used w w') (hpending : ∀ p, se.oidcPending = some p → w.nextState ≤ p.state) :
    Keeps ended used w (w'.addSession se) where
  nextState := h.nextState
  nextSid := h.nextSid.trans (Nat.le_succ _)
  stored k se' p hs hp := by
    rw [World.addSession, Table.lookup_insert'] at hs
    split at hs
    · cases hs
      exact .inr (hpending p hp)
    · exact h.stored k se' p hs hp
  user k se' hk hs := by
    rw [World.addSession, Table.lookup_insert', if_neg (Nat.ne_of_lt (hk.trans_le h.nextSid))] at hs
    exact h.user k se' hk hs
  stays k se' hk hended hs := by
    rw [World.addSession, Table.lookup_insert', if_neg (Nat.ne_of_lt (hk.trans_le h.nextSid))]
    exact h.stays k se' hk hended hs
  uses := h.uses

/-- A step, and one that leaves the sessions to all. -/
theorem Keeps.trans {w₁ : World} (h : Keeps ended used w w₁) (h₁ : Keeps none none w₁ w') : Keeps ended used w w' where
  nextState := h.nextState.trans h₁.nextState
  nextSid := h.nextSid.trans h₁.nextSid
  stored sid se p hs hp := by
    rcases h₁.stored sid se p hs hp with ⟨se₁, hs₁, hp₁⟩ | hle
    · exact h.stored sid se₁ p hs₁ hp₁
    · exact .inr (h.nextState.trans hle)
  user sid se hlt hs := by
    obtain ⟨se₁, hs₁, heq⟩ := h₁.user sid se (hlt.trans_le h.nextSid) hs
    obtain ⟨se₀, hs₀, heq₀⟩ := h.user sid se₁ hlt hs₁
    exact ⟨se₀, hs₀, heq₀.trans heq⟩
  stays sid se hlt hended hs := by
    obtain ⟨se₁, hs₁, heq₁⟩ := h.stays sid se hlt hended hs
    obtain ⟨se', hs', heq⟩ := h₁.stays sid se₁ (hlt.trans_le h.nextSid) (by simp) hs₁
    exact ⟨se', hs', heq.trans heq₁⟩
  uses x hx := by
    rcases h₁.uses x hx with hx | hx
    · exact h.uses x hx
    · cases hx

/-- The step ends no session, and its flow was not used. -/
theorem Keeps.mono (h : Keeps none none w w') : Keeps ended used w w' where
  nextState := h.nextState
  nextSid := h.nextSid
  stored := h.stored
  user := h.user
  stays sid se hk _ hs := h.stays sid se hk (by simp) hs
  uses x hx := (h.uses x hx).imp_right fun h => by cases h

theorem World.Sessions.of_eq (h : w.Sessions) (hsessions : w'.sessions = w.sessions) (hsid : w'.nextSid = w.nextSid)
    (hstarted : w'.started = w.started) (hstate : w'.nextState = w.nextState) : w'.Sessions := by
  refine h.sub hstarted hstate fun sid se hs => ?_
  rw [hsessions] at hs
  exact ⟨hsid ▸ h.known sid se hs, fun p hp => ⟨se, hs, hp, rfl⟩⟩

theorem World.Sessions.erase (h : w.Sessions) : ({ w with sessions := w.sessions.erase sid } : World).Sessions := by
  refine h.sub rfl rfl fun k se hs => ?_
  rw [Table.lookup_erase'] at hs
  split at hs
  · cases hs
  · exact ⟨h.known k se hs, fun p hp => ⟨se, hs, hp, rfl⟩⟩

theorem World.Sessions.modify {f : Session → Session} (h : w.Sessions) (huser : ∀ se, (f se).userId = se.userId)
    (hpending : ∀ se p, (f se).oidcPending = some p → se.oidcPending = some p) :
    ({ w with sessions := w.sessions.modify sid f } : World).Sessions := by
  refine h.sub rfl rfl fun k se' hs => ?_
  rw [Table.lookup_modify] at hs
  split at hs
  next heq =>
    obtain ⟨se, hse, rfl⟩ := Option.map_eq_some_iff.mp hs
    exact ⟨heq ▸ h.known sid se hse, fun p hp => ⟨se, heq ▸ hse, hpending se p hp, (huser se).symm⟩⟩
  next => exact ⟨h.known k se' hs, fun p hp => ⟨se', hs, hp, rfl⟩⟩

theorem World.Sessions.addSession (h : w.Sessions) (hpending : se.oidcPending = none) : (w.addSession se).Sessions := by
  refine h.sub rfl rfl fun k se' hs => ?_
  rw [World.addSession, Table.lookup_insert'] at hs
  split at hs
  next heq =>
    cases hs
    refine ⟨heq ▸ Nat.lt_succ_self _, fun p hp => ?_⟩
    rw [hpending] at hp
    cases hp
  next => exact ⟨(h.known k se' hs).trans (Nat.lt_succ_self _), fun p hp => ⟨se', hs, hp, rfl⟩⟩

/-! ## A start -/

/-- What a start says of its session is still so. -/
structure Start.At (w : World) (r : Start) : Prop where
  known : ∀ sid, r.sid = some sid → sid < w.nextSid
  user : ∀ sid se, r.sid = some sid → w.sessions.lookup sid = some se → se.userId = r.userId

theorem Start.At.keeps (h : r.At w) (hk : Keeps ended used w w') : r.At w' where
  known sid hsid := (h.known sid hsid).trans_le hk.nextSid
  user sid se' hsid hs := by
    obtain ⟨se, hse, huser⟩ := hk.user sid se' (h.known sid hsid) hs
    rw [← huser]
    exact h.user sid se hsid hse

theorem Keeps.draw (h : Keeps ended used w w') {started : List Started} :
    Keeps ended used w { w' with nextState := w'.nextState + 1, started } :=
  { h with nextState := h.nextState.trans (Nat.le_succ _) }

theorem savePending_keeps {id : ProviderId} {time : Nat} : Keeps ended used w (w.savePending r id time) := by
  unfold World.savePending
  dsimp only
  split
  · exact (Keeps.refl.addSession fun p hp => (Option.some.inj hp) ▸ le_rfl).draw
  next sid _ =>
  split
  · exact Keeps.refl.draw
  · let f (session : Session) := { session with oidcPending := some (r.pending w.nextState id time) }
    have hmodify : Keeps ended used w { w with sessions := w.sessions.modify sid f } :=
      .modify (fun _ => rfl) fun _ p hp => .inr (Option.some.inj hp ▸ le_rfl)
    exact hmodify.draw

/-- The newest flow is its session's last. -/
theorem World.Sessions.draw {st : Started} (h : w.Sessions) (hknown : ∀ k se, w'.sessions.lookup k = some se → k < w'.nextSid)
    (hstate : w'.nextState = w.nextState + 1) (hstarted : w'.started = st :: w.started) (hfresh : st.pending.state = w.nextState)
    (hexpires : st.pending.expiresAt = st.time + TEN_MINUTES) (hlink : st.pending.action = .link → st.pending.linkUserId = st.userId)
    (hmine : ∀ se p, w'.sessions.lookup st.sid = some se → se.oidcPending = some p → p = st.pending ∧ se.userId = st.userId)
    (hothers : ∀ k se, k ≠ st.sid → w'.sessions.lookup k = some se → w.sessions.lookup k = some se) : w'.Sessions where
  known := hknown
  pending k se p hs hp := by
    rw [hstate, hstarted]
    by_cases hk : k = st.sid
    · subst hk
      obtain ⟨rfl, huser⟩ := hmine se p hs hp
      refine ⟨hfresh ▸ Nat.lt_succ_self _, st, ?_, rfl, hexpires, huser, hlink⟩
      simp only [List.find?_cons, decide_true]
    · obtain ⟨hlt, st', hfind, hrest⟩ := h.pending k se p (hothers k se hk hs) hp
      refine ⟨hlt.trans (Nat.lt_succ_self _), st', ?_, hrest⟩
      rw [List.find?_cons_of_neg]
      · exact hfind
      · simpa using Ne.symm hk
  own k k' se se' p p' hs hs' hp hp' heq := by
    by_cases hk : k = st.sid <;> by_cases hk' : k' = st.sid
    · rw [hk, hk']
    · subst hk
      obtain ⟨rfl, -⟩ := hmine se p hs hp
      have hlt := (h.pending k' se' p' (hothers k' se' hk' hs') hp').1
      omega
    · subst hk'
      obtain ⟨rfl, -⟩ := hmine se' p' hs' hp'
      have hlt := (h.pending k se p (hothers k se hk hs) hp).1
      omega
    · exact h.own k k' se se' p p' (hothers k se hk hs) (hothers k' se' hk' hs') hp hp' heq

theorem savePending_sessions {id : ProviderId} {time : Nat} (h : w.Sessions) (hr : r.At w) (hnone : r.sid = none → r.userId = none) :
    (w.savePending r id time).Sessions := by
  unfold World.savePending
  dsimp only
  have hlink {state : Nat} : (r.pending state id time).action = .link → (r.pending state id time).linkUserId = r.userId :=
    fun h => if_pos h
  split
  next hsid =>
    refine h.draw ?_ rfl rfl rfl rfl hlink ?_ ?_
    · intro k se hs
      dsimp only at hs ⊢
      rw [World.addSession, Table.lookup_insert'] at hs
      split at hs
      next heq => exact heq ▸ Nat.lt_succ_self _
      next => exact (h.known k se hs).trans (Nat.lt_succ_self _)
    · intro se p hs hp
      dsimp only at hs
      rw [World.addSession, Table.lookup_insert', if_pos rfl] at hs
      cases hs
      cases hp
      exact ⟨rfl, (hnone hsid).symm⟩
    · intro k se hk hs
      dsimp only at hs
      rwa [World.addSession, Table.lookup_insert', if_neg hk] at hs
  next sid hsid =>
  split
  · exact { h with pending := fun k se p hs hp => (h.pending k se p hs hp).imp_left fun hlt => hlt.trans (Nat.lt_succ_self _) }
  · refine h.draw ?_ rfl rfl rfl rfl hlink ?_ ?_
    · intro k se hs
      dsimp only at hs ⊢
      rw [Table.lookup_modify] at hs
      split at hs
      next heq =>
        obtain ⟨se₀, hse, -⟩ := Option.map_eq_some_iff.mp hs
        exact heq ▸ h.known sid se₀ hse
      next => exact h.known k se hs
    · intro se p hs hp
      dsimp only at hs
      rw [Table.lookup_modify_self] at hs
      obtain ⟨se₀, hse, rfl⟩ := Option.map_eq_some_iff.mp hs
      cases hp
      exact ⟨rfl, hr.user sid se₀ hsid hse⟩
    · intro k se hk hs
      dsimp only at hs
      rwa [Table.lookup_modify_ne hk] at hs

end MailExpert.Oidc
