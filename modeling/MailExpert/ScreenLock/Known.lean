import MailExpert.ScreenLock.Requests

/-!
# What requests know of their session

The session of a request is stored with the user and the method that its copy says, or not stored any more (`Req.Known`), and the step of
one request leaves that to the others (`Keeps`).
-/

namespace MailExpert.ScreenLock

variable {s s' t : State} {r r' : Req} {p p' q : Phase} {answer : Answer} {sid k : Sid} {se se' session : Session} {u uid : UserId}
  {method : Method} {token : Option UserId} {kind : Kind} {i j : Nat} {l : Label}

structure Req.Known (s : State) (r : Req) : Prop where
  sid : ∀ k, r.sid = some k → k < s.nextSid
  fresh : r.fresh = true → r.sid = none ∧ r.moved = true
  empty : r.sid = none → r.fresh = false → r.copy.userId = none
  stored : ∀ k se, r.sid = some k → s.sessions.lookup k = some se → se.userId = r.copy.userId ∧ se.authMethod = r.copy.authMethod
  base : r.fresh = false → r.base.locked = r.copy.locked
  epoch : r.epoch ≤ s.locks

structure Known (s : State) : Prop where
  stored : ∀ k se, s.sessions.lookup k = some se → k < s.nextSid
  cookie : ∀ k, s.cookie = some k → k < s.nextSid
  requests : ∀ p ∈ s.requests, ∀ r, p.req = some r → r.Known s

/-- What a step leaves of the sessions. -/
structure Keeps (s s' : State) : Prop where
  nextSid : s.nextSid ≤ s'.nextSid
  locks : s.locks ≤ s'.locks
  user : ∀ k se', k < s.nextSid → s'.sessions.lookup k = some se' →
    ∃ se, s.sessions.lookup k = some se ∧ se'.userId = se.userId ∧ se'.authMethod = se.authMethod

theorem Req.Known.keeps (h : r.Known s) (hk : Keeps s s') : r.Known s' where
  sid k hsid := (h.sid k hsid).trans_le hk.nextSid
  fresh := h.fresh
  empty := h.empty
  stored k se' hsid hs := by
    obtain ⟨se, hse, huser, hmethod⟩ := hk.user k se' (h.sid k hsid) hs
    obtain ⟨huser', hmethod'⟩ := h.stored k se hsid hse
    exact ⟨huser.trans huser', hmethod.trans hmethod'⟩
  base := h.base
  epoch := h.epoch.trans hk.locks

theorem Keeps.refl : Keeps s s := ⟨le_rfl, le_rfl, fun _ se _ h => ⟨se, h, rfl, rfl⟩⟩

theorem Keeps.trans (h : Keeps s s') (h' : Keeps s' t) : Keeps s t where
  nextSid := h.nextSid.trans h'.nextSid
  locks := h.locks.trans h'.locks
  user k se' hk hs := by
    obtain ⟨se₁, hs₁, huser₁, hmethod₁⟩ := h'.user k se' (hk.trans_le h.nextSid) hs
    obtain ⟨se, hs, huser, hmethod⟩ := h.user k se₁ hk hs₁
    exact ⟨se, hs, huser₁.trans huser, hmethod₁.trans hmethod⟩

theorem Keeps.of_sessions (hsessions : s'.sessions = s.sessions) (hsid : s'.nextSid = s.nextSid) (hlocks : s.locks ≤ s'.locks) :
    Keeps s s' :=
  ⟨hsid.ge, hlocks, fun _ se _ h => ⟨se, hsessions ▸ h, rfl, rfl⟩⟩

/-- The sessions are those of before but for one that ended. -/
theorem lookup_erase {o : Option Sid} (h : (o.elim s.sessions s.sessions.erase).lookup k = some se) : s.sessions.lookup k = some se := by
  cases o with
  | none => exact h
  | some sid =>
    rw [Option.elim_some, Table.lookup_erase'] at h
    split at h
    · cases h
    · exact h

theorem Keeps.erase {o : Option Sid} {lockedFor : Option UserId} :
    Keeps s { s with sessions := o.elim s.sessions s.sessions.erase, lockedFor } :=
  ⟨le_rfl, le_rfl, fun _ se _ h => ⟨se, lookup_erase h, rfl, rfl⟩⟩

theorem destroy_keeps {o : Option Sid} : Keeps s (s.destroy o) := by
  cases o with
  | none => exact .refl
  | some sid => exact ⟨le_rfl, le_rfl, fun _ se _ h => ⟨se, lookup_erase (o := some sid) h, rfl, rfl⟩⟩

theorem leave_keeps : Keeps s (s.leave r) := by
  unfold State.leave
  split
  · exact .of_sessions rfl rfl le_rfl
  · exact destroy_keeps

theorem save_keeps : Keeps s (s.save r).1 := by
  unfold State.save
  split
  · refine ⟨Nat.le_succ _, le_rfl, fun k se hk h => ⟨se, ?_, rfl, rfl⟩⟩
    dsimp only at h
    rwa [Table.lookup_insert', if_neg (Nat.ne_of_lt hk)] at h
  · refine ⟨le_rfl, le_rfl, fun k se' _ h => ?_⟩
    dsimp only at h
    cases hsid : r.sid with
    | none =>
      rw [hsid] at h
      exact ⟨se', h, rfl, rfl⟩
    | some sid =>
      rw [hsid, Option.elim_some, Table.lookup_modify] at h
      split at h
      next heq =>
        obtain ⟨se, hse, rfl⟩ := Option.map_eq_some_iff.mp h
        exact ⟨se, heq ▸ hse, rfl, rfl⟩
      next => exact ⟨se', h, rfl, rfl⟩

theorem finish_keeps : Keeps s (s.finish r) :=
  save_keeps.trans (.of_sessions rfl rfl le_rfl)

theorem signIn_keeps : Keeps s (s.signIn r session).1 := .erase

theorem bindSessionUser_keeps : Keeps s (s.bindSessionUser r uid method).1 := by
  unfold State.bindSessionUser
  split
  · exact .refl
  · exact signIn_keeps

/-! ## One step -/

/-- The stored sessions and the cookie have ids that were given out. -/
structure Given (s : State) : Prop where
  stored : ∀ k se, s.sessions.lookup k = some se → k < s.nextSid
  cookie : ∀ k, s.cookie = some k → k < s.nextSid

theorem Given.erase {o : Option Sid} {lockedFor : Option UserId} (h : Given s) :
    Given { s with sessions := o.elim s.sessions s.sessions.erase, lockedFor } :=
  ⟨fun k se hk => h.stored k se (lookup_erase hk), h.cookie⟩

theorem Given.destroy {o : Option Sid} (h : Given s) : Given (s.destroy o) := by
  cases o with
  | none => exact h
  | some sid => exact ⟨fun k se hk => h.stored k se (lookup_erase (o := some sid) hk), h.cookie⟩

theorem Given.save (h : Given s) : Given (s.save r).1 := by
  unfold State.save
  split
  · refine ⟨fun k se hk => ?_, fun k hk => (h.cookie k hk).trans (Nat.lt_succ_self _)⟩
    dsimp only at hk ⊢
    rw [Table.lookup_insert'] at hk
    split at hk
    next heq => exact heq ▸ Nat.lt_succ_self _
    next => exact (h.stored k se hk).trans (Nat.lt_succ_self _)
  · refine ⟨fun k se' hk => ?_, h.cookie⟩
    dsimp only at hk ⊢
    cases hsid : r.sid with
    | none =>
      rw [hsid] at hk
      exact h.stored k se' hk
    | some sid =>
      rw [hsid, Option.elim_some, Table.lookup_modify] at hk
      split at hk
      next heq =>
        obtain ⟨se, hse, -⟩ := Option.map_eq_some_iff.mp hk
        exact heq ▸ h.stored sid se hse
      next => exact h.stored k se' hk

theorem save_known (h : r.Known s) : (s.save r).2.Known (s.save r).1 := by
  have hk : Keeps s (s.save r).1 := save_keeps
  unfold State.save at hk ⊢
  split at hk
  next hfresh =>
    rw [if_pos hfresh]
    refine ⟨fun k hsid => ?_, fun h => (by cases h), fun h => (by cases h), fun k se hsid hs => ?_, fun _ => rfl, h.epoch⟩
    · exact Option.some.inj hsid ▸ Nat.lt_succ_self _
    · dsimp only at hs
      rw [Table.lookup_insert', if_pos (Option.some.inj hsid).symm] at hs
      exact Option.some.inj hs ▸ ⟨rfl, rfl⟩
  next hfresh =>
    rw [if_neg hfresh]
    exact { h.keeps hk with base := fun _ => rfl }

theorem save_sid (h : ∀ k, r.sid = some k → k < s.nextSid) (hsid : (s.save r).2.sid = some k) : k < (s.save r).1.nextSid := by
  unfold State.save at hsid ⊢
  split at hsid
  next hfresh =>
    rw [if_pos hfresh]
    exact Option.some.inj hsid ▸ Nat.lt_succ_self _
  next hfresh =>
    rw [if_neg hfresh]
    exact h k hsid

theorem Given.finish (h : Given s) (hr : ∀ k, r.sid = some k → k < s.nextSid) : Given (s.finish r) := by
  have hsave : Given (s.save r).1 := h.save
  refine ⟨hsave.stored, fun k hk => ?_⟩
  rcases hsid : (s.save r).2.sid with _ | sid
  · have hcookie : s.cookie = some k := by simpa [State.finish, hsid] using hk
    exact (h.cookie k hcookie).trans_le save_keeps.nextSid
  · have heq : sid = k := by simpa [State.finish, hsid] using hk
    exact heq ▸ save_sid hr hsid

theorem signIn_known (h : r.Known s) : (s.signIn r session).2.Known (s.signIn r session).1 where
  sid k hsid := by cases hsid
  fresh _ := ⟨rfl, rfl⟩
  empty _ hfresh := by cases hfresh
  stored k se hsid := by cases hsid
  base hfresh := by cases hfresh
  epoch := h.epoch

theorem bindSessionUser_known (h : r.Known s) : (s.bindSessionUser r uid method).2.Known (s.bindSessionUser r uid method).1 := by
  unfold State.bindSessionUser
  split
  · exact h
  · exact signIn_known h

/-- The fields of the copy that a request may change before its end. -/
theorem Req.Known.copy {flow : Bool} (h : r.Known s) : Req.Known s { r with copy := { r.copy with flow } } :=
  ⟨h.sid, h.fresh, h.empty, h.stored, h.base, h.epoch⟩

theorem gated_req (h : (State.gated r token kind).req = some r') : r' = r := by
  unfold State.gated at h
  split at h
  · split at h
    · cases h
    · exact (Option.some.inj h).symm
  · exact (Option.some.inj h).symm

/-- What a step of a request leaves to all, and what the request knows after it. -/
structure Step (s s' : State) (p' : Phase) : Prop where
  keeps : Keeps s s'
  given : Given s'
  requests : s'.requests = s.requests
  known : ∀ r, p'.req = some r → r.Known s'

theorem Step.same (hs : Given s) (h : ∀ r, p'.req = some r → r.Known s) : Step s s p' := ⟨.refl, hs, rfl, h⟩

theorem Step.done (hk : Keeps s s') (hg : Given s') (hr : s'.requests = s.requests) : Step s s' .done := ⟨hk, hg, hr, fun _ h => by cases h⟩

theorem bind_requests : (s.bindSessionUser r uid method).1.requests = s.requests := by
  unfold State.bindSessionUser
  split <;> rfl

theorem save_requests : (s.save r).1.requests = s.requests := by
  unfold State.save
  split <;> rfl

theorem destroy_requests {o : Option Sid} : (s.destroy o).requests = s.requests := by cases o <;> rfl

theorem leave_requests : (s.leave r).requests = s.requests := by
  unfold State.leave
  split
  · rfl
  · exact destroy_requests

theorem leave_given (hs : Given s) : Given (s.leave r) := by
  unfold State.leave
  split
  · exact ⟨hs.stored, hs.cookie⟩
  · exact hs.destroy

theorem bind_given (hs : Given s) : Given (s.bindSessionUser r uid method).1 := by
  unfold State.bindSessionUser
  split
  · exact hs
  · exact hs.erase

theorem finish_step (hs : Given s) (hr : ∀ k, r.sid = some k → k < s.nextSid) : Step s (s.finish r) .done :=
  .done finish_keeps (hs.finish hr) save_requests

theorem save_locks : (s.save r).1.locks = s.locks := by
  unfold State.save
  split <;> rfl

theorem finish_locks : (s.finish r).locks = s.locks := save_locks

theorem pass_step (hs : Given s) (hr : r.Known s) : Step s (s.pass r kind) (.handle r kind) := by
  unfold State.pass
  split
  · refine ⟨.of_sessions rfl rfl le_rfl, ⟨hs.stored, hs.cookie⟩, rfl, fun r' h => ?_⟩
    obtain rfl := Option.some.inj h
    exact hr.keeps (.of_sessions rfl rfl le_rfl)
  · exact .same hs fun r' h => Option.some.inj h ▸ hr

theorem run_step (hs : Given s) (hp : ∀ r, p.req = some r → r.Known s) (h : s.run p answer = some (s', p')) : Step s s' p' := by
  unfold State.run at h
  split at h
  case h_1 r kind =>
    cases h
    exact .same hs fun r' h => gated_req h ▸ hp r rfl
  case h_2 r uid kind =>
    cases h
    exact ⟨bindSessionUser_keeps, bind_given hs, bind_requests, fun r' h => gated_req h ▸ bindSessionUser_known (hp r rfl)⟩
  case h_3 r token kind ends | h_10 r ends =>
    split at h
    · cases h
      exact .done leave_keeps (leave_given hs) leave_requests
    · cases h
      exact .same hs fun r' h => Option.some.inj h ▸ hp r rfl
  case h_4 r token =>
    split at h
    · cases h
      exact ⟨save_keeps, hs.save, save_requests, fun r' h => Option.some.inj h ▸ save_known (hp r rfl)⟩
    · cases h
      exact .same hs fun r' h => Option.some.inj h ▸ hp r rfl
  case h_5 r token ends =>
    cases h
    split
    · exact .same hs fun r' h => Option.some.inj h ▸ hp r rfl
    · exact .done .refl hs rfl
  case h_6 r token =>
    split at h
    · cases h
      exact .done .refl hs rfl
    next session hsession =>
      cases h
      refine .same hs fun r' h => ?_
      obtain rfl := Option.some.inj h
      have hr := hp r rfl
      obtain ⟨sid, hsid, hlookup⟩ := Option.bind_eq_some_iff.mp hsession
      refine ⟨hr.sid, hr.fresh, fun hnone => ?_, fun k se hk hse => ?_, fun _ => rfl, hr.epoch⟩
      · rw [hsid] at hnone
        cases hnone
      · have heq : k = sid := Option.some.inj (hk.symm.trans hsid)
        rw [heq, hlookup] at hse
        exact Option.some.inj hse ▸ ⟨rfl, rfl⟩
  case h_7 r kind =>
    split at h
    · cases h
      exact .same hs fun r' h => Option.some.inj h ▸ hp r rfl
    · cases h
      exact pass_step hs (hp r rfl)
  case h_8 r =>
    split at h
    · cases h
      exact .same hs fun r' h => Option.some.inj h ▸ hp r rfl
    · cases h
      have hstep : Step s (s.finish { r with copy := { r.copy with locked := some true } }) .done := finish_step hs (hp r rfl).sid
      have hlocks : (s.finish { r with copy := { r.copy with locked := some true } }).locks ≤ s.locks + 1 := finish_locks.le.trans (Nat.le_succ _)
      exact .done (hstep.keeps.trans (.of_sessions rfl rfl hlocks)) ⟨hstep.given.stored, hstep.given.cookie⟩ hstep.requests
  case h_9 r =>
    split at h
    · cases h
      exact .same hs fun r' h => Option.some.inj h ▸ hp r rfl
    · cases h
      have hstep : Step s (s.finish { r with copy := { r.copy with locked := some false } }) .done := finish_step hs (hp r rfl).sid
      exact .done (hstep.keeps.trans (.of_sessions rfl rfl le_rfl)) ⟨hstep.given.stored, hstep.given.cookie⟩ hstep.requests
  case h_11 r =>
    cases h
    have hdestroy : Keeps s (s.destroy r.sid) := destroy_keeps
    exact .done (hdestroy.trans (.of_sessions rfl rfl le_rfl)) ⟨hs.destroy.stored, fun k h => by cases h⟩ destroy_requests
  case h_12 r kind _ _ _ =>
    cases h
    exact .same hs fun r' h => Option.some.inj h ▸ hp r rfl
  case h_13 r =>
    cases h
    refine .same hs fun r' h => ?_
    obtain rfl := Option.some.inj h
    have hr := hp r rfl
    refine ⟨hr.sid, fun hfresh => ?_, fun hnone hfresh => ?_, hr.stored, fun hfresh => ?_, hr.epoch⟩
    · exact ⟨Option.isNone_iff_eq_none.mp hfresh, hfresh⟩
    · rw [hnone] at hfresh
      cases hfresh
    · refine hr.base ?_
      cases hold : r.fresh with
      | false => rfl
      | true =>
        rw [(hr.fresh hold).1] at hfresh
        cases hfresh
  case h_14 r ends =>
    cases h
    exact .same hs fun r' h => Option.some.inj h ▸ hp r rfl
  case h_15 r google ends =>
    cases h
    exact .same hs fun r' h => Option.some.inj h ▸ (hp r rfl).copy
  case h_16 r uid =>
    cases h
    exact ⟨bindSessionUser_keeps, bind_given hs, bind_requests, fun r' h => Option.some.inj h ▸ bindSessionUser_known (hp r rfl).copy⟩
  case h_17 r uid =>
    cases h
    have hk : Keeps s (s.signIn r { userId := some uid }).1 := signIn_keeps
    exact ⟨hk, hs.erase, rfl, fun r' h => Option.some.inj h ▸ signIn_known (hp r rfl)⟩
  case h_18 r =>
    cases h
    exact finish_step hs (hp r rfl).sid
  case h_19 => cases h

theorem load_known (hs : Given s) : s.load.Known s := by
  have hcookie {k : Sid} (h : s.load.sid = some k) : s.cookie = some k ∧ (s.sessions.lookup k).isSome = true := by
    obtain ⟨hcookie, hstored⟩ := Option.filter_eq_some_iff.mp h
    exact ⟨hcookie, hstored⟩
  refine ⟨fun k hk => hs.cookie k (hcookie hk).1, fun h => (by cases h), fun hnone _ => ?_, fun k se hk hse => ?_, fun _ => rfl, le_rfl⟩
  · change ((s.load.sid.bind s.sessions.lookup).getD {}).userId = none
    rw [hnone]
    rfl
  · have hcopy : s.load.copy = (s.load.sid.bind s.sessions.lookup).getD {} := rfl
    rw [hcopy, hk, Option.bind_some, hse]
    exact ⟨rfl, rfl⟩

theorem known_invariant : system.Invariant TransitionSystem.anyStep Known where
  init h := ⟨fun k se hk => by simp [h.sessions] at hk, fun k hk => by simp [h.cookie] at hk, fun p hp => by simp [h.requests] at hp⟩
  step {s l s'} hs _ hstep := by
    have hgiven : Given s := ⟨hs.stored, hs.cookie⟩
    have hreceive {p : Phase} (hp : ∀ r, p.req = some r → r.Known s) : Known { s with requests := s.requests ++ [p] } := by
      refine ⟨hs.stored, hs.cookie, fun q hq r hr => ?_⟩
      have hk : Keeps s { s with requests := s.requests ++ [p] } := .of_sessions rfl rfl le_rfl
      rcases List.mem_append.mp hq with hq | hq
      · exact (hs.requests q hq r hr).keeps hk
      · rw [List.mem_singleton.mp hq] at hr
        exact (hp r hr).keeps hk
    cases l with
    | request token kind =>
      cases hstep
      refine hreceive fun r hr => ?_
      unfold State.receive at hr
      split at hr <;> exact Option.some.inj hr ▸ load_known hgiven
    | start =>
      cases hstep
      refine hreceive fun r hr => ?_
      unfold State.receiveStart at hr
      split at hr <;> exact Option.some.inj hr ▸ load_known hgiven
    | callback google =>
      cases hstep
      refine hreceive fun r hr => ?_
      unfold State.receiveCallback at hr
      split at hr
      · exact Option.some.inj hr ▸ (load_known hgiven).copy
      · exact Option.some.inj hr ▸ load_known hgiven
    | endSession sid =>
      cases hstep
      exact ⟨hgiven.destroy.stored, hgiven.destroy.cookie, fun q hq r hr => (hs.requests q hq r hr).keeps destroy_keeps⟩
    | run i answer =>
      change step s (.run i _) = _ at hstep
      rw [step] at hstep
      split at hstep
      · cases hstep
      next p hi =>
        obtain ⟨⟨s₁, p'⟩, hrun, rfl⟩ := Option.map_eq_some_iff.mp hstep
        have h := run_step hgiven (hs.requests p (List.mem_of_getElem? hi)) hrun
        refine ⟨h.given.stored, h.given.cookie, fun q hq r hr => ?_⟩
        have hk : Keeps s₁ { s₁ with requests := s₁.requests.set i p' } := .of_sessions rfl rfl le_rfl
        obtain ⟨j, hj⟩ := List.mem_iff_getElem?.mp hq
        dsimp only at hj
        rw [h.requests] at hj
        rcases (Agents.getElem?_set_some hi).mp hj with ⟨-, rfl⟩ | ⟨-, hj⟩
        · exact (h.known r hr).keeps hk
        · exact ((hs.requests q (List.mem_of_getElem? hj) r hr).keeps h.keeps).keeps hk

end MailExpert.ScreenLock
