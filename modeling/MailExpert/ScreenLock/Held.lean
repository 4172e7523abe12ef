import MailExpert.ScreenLock.Known

/-!
# A lock holds

The runs in which no request writes over a lock (`steady`), and what the browser and the requests under way hold in them while the browser
is locked (`Held`). A request writes over the lock that it did not see: it brings the browser a session that it signed in before the lock
or beside it, or it answers an unlock that came before the lock.
-/

namespace MailExpert.ScreenLock

variable {s s' : State} {r r' o : Req} {p p' : Phase} {ans : Answer} {k : Sid} {se session : Session} {u uid : UserId}
  {method : Method} {tok : Option UserId} {kind : Kind} {i : Nat}

/-- The session is nobody's, or the user's and locked. -/
def Session.held (se : Session) (u : UserId) : Bool := se.userId.isNone || (se.userId = some u && se.isLocked)

/-- The session that the answer to the request gives the browser is nobody's, or the user's and locked. -/
def State.safe (s : State) (u : UserId) (r : Req) : Bool :=
  if r.fresh then r.copy.held u else (r.sid.bind s.sessions.lookup).all (·.held u)

/-- The request came signed out, after the locked session was signed out. -/
def State.late (s : State) (r : Req) : Bool := r.copy.userId.isNone && r.afterOut && r.epoch = s.locks

/-- Where the request binds a new session, it is late, or the session carries the lock over. -/
def State.mayBind (s : State) (r : Req) (uid : UserId) (method : Method) : Bool :=
  s.lockedFor.all fun u => (r.copy.userId = some uid && r.copy.authMethod = some method) || s.late r ||
    (uid = u && r.copy.userId = some uid && r.copy.isLocked)

/-- The other requests under way hold the session that request `i` locks, or a safe one. -/
def State.mayLock (s : State) (i : Nat) (r : Req) : Bool :=
  r.copy.userId.all fun u => (s.requests.eraseIdx i).all fun p => p.req.all fun o => (!o.fresh && o.sid = r.sid) || s.safe u o

/-- The unlock came after the lock, or it writes nothing. -/
def State.mayUnlock (s : State) (r : Req) : Bool :=
  s.lockedFor.isNone || r.copy.userId.isNone || r.epoch = s.locks ||
    (!r.fresh && (r.base.locked = some false || (r.sid.bind s.sessions.lookup).isNone))

/-- No request writes over a lock. -/
def steady (s : State) : Label → Bool
  | .run i answer =>
    match s.requests[i]?, answer with
    | some (.gate r (some uid) _), .next => s.mayBind r uid .cloudflare
    | some (.callback r true), .user uid => s.mayBind r uid .google
    | some (.callback r false), .user _ => s.lockedFor.isNone || s.late r
    | some (.handle r .lock), .next => s.mayLock i r
    | some (.handle r .unlock), .next => s.mayUnlock r
    | _, _ => true
  | _ => true

structure Req.Held (s : State) (u : UserId) (r : Req) : Prop where
  fresh : r.fresh = true → r.copy.held u = true
  stored : ∀ k se, r.sid = some k → s.sessions.lookup k = some se → se.held u = true
  /-- The request came after the lock. -/
  copy : r.epoch = s.locks → r.copy.held u = true

structure Held (s : State) (u : UserId) : Prop where
  cookie : ∀ k se, s.cookie = some k → s.sessions.lookup k = some se → se.held u = true
  requests : ∀ p ∈ s.requests, ∀ r, p.req = some r → r.Held s u

/-- What a step leaves of the sessions. -/
structure Frame (u : UserId) (s s' : State) : Prop where
  locks : s'.locks = s.locks
  sessions : ∀ k se', s'.sessions.lookup k = some se' →
    se'.held u = true ∨ ∃ se, s.sessions.lookup k = some se ∧ se'.held u = se.held u

theorem Session.held_congr {se se' : Session} (huser : se'.userId = se.userId) (hlocked : se'.locked = se.locked) :
    se'.held u = se.held u := by
  rw [Session.held, Session.held, Session.isLocked, Session.isLocked, huser, hlocked]

theorem Session.held_some (h : se.held u = true) (huser : se.userId.isSome = true) : se.userId = some u ∧ se.isLocked = true := by
  obtain ⟨v, hv⟩ := Option.isSome_iff_exists.mp huser
  simpa [Session.held, hv] using h

theorem Frame.held (hf : Frame u s s') (h : ∀ se, s.sessions.lookup k = some se → se.held u = true)
    (hs : s'.sessions.lookup k = some se) : se.held u = true := by
  rcases hf.sessions k se hs with hheld | ⟨se₀, hse₀, heq⟩
  · exact hheld
  · exact heq.trans (h se₀ hse₀)

theorem Req.Held.frame (h : r.Held s u) (hf : Frame u s s') : r.Held s' u where
  fresh := h.fresh
  stored k _ hk hs := hf.held (fun se => h.stored k se hk) hs
  copy heq := h.copy (heq.trans hf.locks)

theorem Frame.of_eq (hlocks : s'.locks = s.locks) (hsessions : s'.sessions = s.sessions) : Frame u s s' :=
  ⟨hlocks, fun _ se h => .inr ⟨se, hsessions ▸ h, rfl⟩⟩

theorem Frame.refl : Frame u s s := .of_eq rfl rfl

theorem Frame.erase {o : Option Sid} {lockedFor : Option UserId} :
    Frame u s { s with sessions := o.elim s.sessions s.sessions.erase, lockedFor } :=
  ⟨rfl, fun _ se h => .inr ⟨se, lookup_erase h, rfl⟩⟩

theorem destroy_frame {o : Option Sid} : Frame u s (s.destroy o) := by
  cases o with
  | none => exact .refl
  | some sid => exact ⟨rfl, fun _ se h => .inr ⟨se, lookup_erase (o := some sid) h, rfl⟩⟩

theorem leave_frame : Frame u s (s.leave r) := by
  unfold State.leave
  split
  · exact .of_eq rfl rfl
  · exact destroy_frame

theorem merge_held (h : r.copy.locked = r.base.locked) : (State.merge r se).held u = se.held u :=
  Session.held_congr rfl (if_pos h)

theorem save_frame (hfresh : r.fresh = true → r.copy.held u = true)
    (hkeeps : r.fresh = false → (r.sid.bind s.sessions.lookup).isSome = true → r.copy.locked = r.base.locked) : Frame u s (s.save r).1 := by
  unfold State.save
  split
  next hnew =>
    refine ⟨rfl, fun k se h => ?_⟩
    dsimp only at h
    rw [Table.lookup_insert'] at h
    split at h
    · exact .inl (Option.some.inj h ▸ hfresh hnew)
    · exact .inr ⟨se, h, rfl⟩
  next hold =>
    cases hsid : r.sid with
    | none => exact .of_eq rfl rfl
    | some sid =>
      refine ⟨rfl, fun k se h => .inr ?_⟩
      rw [Option.elim_some, Table.lookup_modify] at h
      split at h
      next heq =>
        obtain ⟨se₀, hse₀, rfl⟩ := Option.map_eq_some_iff.mp h
        refine ⟨se₀, heq ▸ hse₀, merge_held (hkeeps (by simpa using hold) ?_)⟩
        rw [hsid, Option.bind_some, hse₀]
        rfl
      next => exact ⟨se, h, rfl⟩

/-- What the request holds once its session is saved. -/
theorem save_held (h : r.Held s u) (hf : Frame u s (s.save r).1) : (s.save r).2.Held (s.save r).1 u := by
  unfold State.save at hf ⊢
  split at hf
  next hnew =>
    rw [if_pos hnew]
    refine ⟨fun hfresh => (by cases hfresh), fun k se hk hs => ?_, h.copy⟩
    dsimp only at hs
    rw [Table.lookup_insert', if_pos (Option.some.inj hk).symm] at hs
    exact Option.some.inj hs ▸ h.fresh hnew
  next hold =>
    rw [if_neg hold]
    have hr : r.Held _ u := h.frame hf
    exact ⟨hr.fresh, hr.stored, hr.copy⟩

/-! ## What one request does -/

/-- What a step of a request leaves to the browser and to the other requests, and what the request holds after it. -/
structure Leaves (u : UserId) (s s' : State) (p' : Phase) : Prop where
  frame : Frame u s s'
  requests : s'.requests = s.requests
  cookie : ∀ k se, s'.cookie = some k → s'.sessions.lookup k = some se → se.held u = true
  held : ∀ r, p'.req = some r → r.Held s' u

theorem Leaves.next (h : Leaves u s s' p') (hs : Held s u) (hi : s.requests[i]? = some p) :
    Held { s' with requests := s'.requests.set i p' } u := by
  refine ⟨h.cookie, fun q hq o ho => ?_⟩
  obtain ⟨j, hj⟩ := List.mem_iff_getElem?.mp hq
  rw [h.requests] at hj
  have hstep : o.Held s' u := by
    rcases (Agents.getElem?_set_some hi).mp hj with ⟨-, rfl⟩ | ⟨-, hj⟩
    · exact h.held o ho
    · exact (hs.requests q (List.mem_of_getElem? hj) o ho).frame h.frame
  exact ⟨hstep.fresh, hstep.stored, hstep.copy⟩

theorem Leaves.same (hs : Held s u) (hf : Frame u s s') (hrequests : s'.requests = s.requests) (hcookie : s'.cookie = s.cookie)
    (hheld : ∀ r, p'.req = some r → r.Held s' u) : Leaves u s s' p' :=
  ⟨hf, hrequests, fun k _ hk hse => hf.held (fun se => hs.cookie k se (hcookie ▸ hk)) hse, hheld⟩

theorem Leaves.go (hs : Held s u) (h : ∀ r, p'.req = some r → r.Held s u) : Leaves u s s p' := .same hs .refl rfl rfl h

theorem destroy_cookie {o : Option Sid} : (s.destroy o).cookie = s.cookie := by cases o <;> rfl

theorem leave_cookie : (s.leave r).cookie = s.cookie := by
  unfold State.leave
  split
  · rfl
  · exact destroy_cookie

theorem save_cookie : (s.save r).1.cookie = s.cookie := by
  unfold State.save
  split <;> rfl

/-- A request ends, and the browser gets its session. -/
theorem finish_leaves (hs : Held s u) (h : r.Held s u) (hf : Frame u s (s.save r).1) : Leaves u s (s.finish r) .done := by
  have hsaved : (s.save r).2.Held (s.save r).1 u := save_held h hf
  refine ⟨⟨hf.locks, hf.sessions⟩, save_requests, fun k se hk hse => ?_, fun r hr => by cases hr⟩
  rcases hsid : (s.save r).2.sid with _ | sid
  · have hcookie : s.cookie = some k := by simpa [State.finish, hsid, save_cookie] using hk
    exact hf.held (fun se => hs.cookie k se hcookie) hse
  · have heq : sid = k := by simpa [State.finish, hsid] using hk
    exact hsaved.stored k se (heq ▸ hsid) hse

/-- A request that is late signs in, and no lock is left; the others carry the lock over. -/
theorem signIn_held (hlock : (s.signIn r session).1.lockedFor = some u)
    (hsession : s.late r = false → session.held u = true) :
    Frame u s (s.signIn r session).1 ∧ (s.signIn r session).2.Held (s.signIn r session).1 u := by
  have hlate : s.late r = false := by
    cases hlate : s.late r with
    | false => rfl
    | true =>
      have hnone : (s.signIn r session).1.lockedFor = none := if_pos hlate
      rw [hnone] at hlock
      cases hlock
  exact ⟨.erase, fun _ => hsession hlate, fun k se hk => (by cases hk), fun _ => hsession hlate⟩

theorem bindSessionUser_held (h : r.Held s u) (hlocked : s.lockedFor = some u)
    (hlock : (s.bindSessionUser r uid method).1.lockedFor = some u) (hmay : s.mayBind r uid method = true) :
    Frame u s (s.bindSessionUser r uid method).1 ∧ (s.bindSessionUser r uid method).2.Held (s.bindSessionUser r uid method).1 u := by
  unfold State.bindSessionUser at hlock ⊢
  split
  next => exact ⟨.refl, h⟩
  next hbound =>
    rw [if_neg hbound] at hlock
    refine signIn_held hlock fun hlate => ?_
    rw [State.mayBind, hlocked, Option.all_some, hlate, Bool.or_false, Bool.or_eq_true] at hmay
    have hcarry := hmay.resolve_left hbound
    simp only [Bool.and_eq_true, decide_eq_true_eq] at hcarry
    obtain ⟨⟨rfl, huser⟩, hisLocked⟩ := hcarry
    rw [huser, hisLocked]
    simp [Session.held, Session.isLocked]

theorem gated_leaves (hs : Held s u) (hf : Frame u s s') (hrequests : s'.requests = s.requests) (hcookie : s'.cookie = s.cookie)
    (h : r.Held s' u) : Leaves u s s' (State.gated r tok kind) :=
  .same hs hf hrequests hcookie fun _ hr => gated_req hr ▸ h

theorem bind_cookie : (s.bindSessionUser r uid method).1.cookie = s.cookie := by
  unfold State.bindSessionUser
  split <;> rfl

theorem pass_frame : Frame u s (s.pass r kind) := by
  unfold State.pass
  split
  · exact .of_eq rfl rfl
  · exact .refl

theorem pass_requests : (s.pass r kind).requests = s.requests := by
  unfold State.pass
  split <;> rfl

theorem pass_cookie : (s.pass r kind).cookie = s.cookie := by
  unfold State.pass
  split <;> rfl

theorem Req.Held.flow {flow : Bool} (h : r.Held s u) : Req.Held s u { r with copy := { r.copy with flow } } := ⟨h.fresh, h.stored, h.copy⟩

/-- A sign-in that starts brings a browser that has no session one that is nobody's. -/
theorem start_held (hk : r.Known s) (h : r.Held s u) :
    Req.Held s u { r with copy := { r.copy with flow := true }, fresh := r.sid.isNone, moved := r.sid.isNone } := by
  refine ⟨fun hnone => ?_, h.stored, h.copy⟩
  cases hfresh : r.fresh with
  | true => exact h.fresh hfresh
  | false =>
    have huser : r.copy.userId = none := hk.empty (Option.isNone_iff_eq_none.mp hnone) hfresh
    change (r.copy.userId.isNone || _) = true
    rw [huser]
    rfl

/-- An unlock that came before the lock ends. -/
theorem unlock_leaves {lockedFor : Option UserId} (hs : Held s u) (h : r.Held s u) (hlocked : s.lockedFor = some u)
    (huser : r.copy.userId.isSome = true) (hepoch : r.epoch ≠ s.locks) (hmay : s.mayUnlock r = true) :
    Leaves u s { s.finish { r with copy := { r.copy with locked := some false } } with lockedFor } .done := by
  simp only [State.mayUnlock, hlocked, Option.isNone_some, Option.isNone_eq_false_iff.mpr huser, hepoch, decide_false, Bool.false_or,
    Bool.and_eq_true, Bool.not_eq_true', Bool.or_eq_true, decide_eq_true_eq] at hmay
  obtain ⟨hfresh, hwrites⟩ := hmay
  have hheld : Req.Held s u { r with copy := { r.copy with locked := some false } } :=
    ⟨fun hnew => absurd (hfresh.symm.trans hnew) (by simp), h.stored, fun heq => absurd heq hepoch⟩
  have hleaves := finish_leaves hs hheld (save_frame hheld.fresh fun _ hsome => ?_)
  · exact ⟨⟨hleaves.frame.locks, hleaves.frame.sessions⟩, hleaves.requests, hleaves.cookie, fun _ h => by cases h⟩
  · rcases hwrites with hbase | hnone
    · exact hbase.symm
    · rw [Option.isNone_iff_eq_none.mp hnone] at hsome
      cases hsome

def Req.lock (r : Req) : Req := { r with copy := { r.copy with locked := some true } }

theorem lock_copy (huser : r.copy.userId = some u) : r.lock.copy.held u = true := by
  simp [Session.held, Session.isLocked, Req.lock, huser]

/-- Once a request saved the lock, its session is locked, and the others are as they were. -/
theorem lock_sessions (hr : r.Known s) (hopen : r.copy.isLocked = false) (huser : r.copy.userId = some u)
    (h : (s.save r.lock).1.sessions.lookup k = some se) :
    se.held u = true ∨ s.sessions.lookup k = some se ∧ r.sid ≠ some k := by
  unfold State.save at h
  split at h
  next hfresh =>
    dsimp only at h
    rw [Table.lookup_insert'] at h
    split at h
    · exact .inl (Option.some.inj h ▸ lock_copy huser)
    · refine .inr ⟨h, ?_⟩
      rw [(hr.fresh hfresh).1]
      exact Option.some_ne_none k |>.symm
  next hfresh =>
    have hold : r.fresh = false := by simpa [Req.lock] using hfresh
    obtain ⟨sid, hsid⟩ : ∃ sid, r.sid = some sid := Option.ne_none_iff_exists'.mp fun hnone => by simp [hr.empty hnone hold] at huser
    have hlock : r.lock.sid = some sid := hsid
    rw [hlock] at h
    dsimp only at h
    rw [Option.elim_some, Table.lookup_modify] at h
    split at h
    next heq =>
      obtain ⟨stored, hstored, rfl⟩ := Option.map_eq_some_iff.mp h
      have hbase : r.base.locked ≠ some true := by
        rw [hr.base hold]
        simpa [Session.isLocked] using hopen
      have hlocked : (State.merge r.lock stored).locked = some true := if_neg fun heq => hbase heq.symm
      have hstored' : (State.merge r.lock stored).userId = some u := (hr.stored sid stored hsid hstored).1.trans huser
      exact .inl (by simp [Session.held, Session.isLocked, hlocked, hstored'])
    next hne =>
      refine .inr ⟨h, fun heq => hne ?_⟩
      exact Option.some.inj (heq.symm.trans hsid)

theorem lock_cookie (hr : r.Known s) (huser : r.copy.userId = some u) : ∃ sid, (s.finish r.lock).cookie = some sid ∧
    (r.sid = some sid ∨ (s.save r.lock).1.sessions.lookup sid = some r.lock.copy) := by
  cases hfresh : r.fresh with
  | true =>
    refine ⟨s.nextSid, ?_, .inr ?_⟩
    · simp [State.finish, State.save, Req.lock, hfresh]
    · simp [State.save, Req.lock, hfresh]
  | false =>
    obtain ⟨sid, hsid⟩ : ∃ sid, r.sid = some sid := Option.ne_none_iff_exists'.mp fun hnone => by simp [hr.empty hnone hfresh] at huser
    exact ⟨sid, by simp [State.finish, State.save, Req.lock, hfresh, hsid], .inl hsid⟩

/-- The browser is locked once a lock request answers. -/
theorem lock_held (hs : Known s) (hi : s.requests[i]? = some (.handle r .lock)) (hopen : r.copy.isLocked = false)
    (huser : r.copy.userId = some u) (hmay : s.mayLock i r = true) (hsessions : s'.sessions = (s.save r.lock).1.sessions)
    (hcookie : s'.cookie = (s.finish r.lock).cookie) (hlocks : s'.locks = s.locks + 1) (hrequests : s'.requests = s.requests.set i .done) :
    Held s' u := by
  have hr : r.Known s := hs.requests _ (List.mem_of_getElem? hi) r rfl
  refine ⟨fun k se hk hse => ?_, fun q hq o ho => ?_⟩
  · obtain ⟨sid, hsid, hfound⟩ := lock_cookie hr huser
    obtain rfl : sid = k := Option.some.inj (hsid.symm.trans (hcookie ▸ hk))
    rw [hsessions] at hse
    rcases hfound with hmine | hnew
    · exact (lock_sessions hr hopen huser hse).resolve_right fun h => h.2 hmine
    · exact Option.some.inj (hnew.symm.trans hse) ▸ lock_copy huser
  · rw [hrequests] at hq
    obtain ⟨j, hj⟩ := List.mem_iff_getElem?.mp hq
    rcases (Agents.getElem?_set_some hi).mp hj with ⟨-, rfl⟩ | ⟨hij, hj⟩
    · cases ho
    have hknown : o.Known s := hs.requests q (List.mem_of_getElem? hj) o ho
    have hmay : ((!o.fresh && o.sid = r.sid) || s.safe u o) = true := by
      rw [State.mayLock, huser, Option.all_some, List.all_eq_true] at hmay
      have hq := hmay q (List.mem_eraseIdx_iff_getElem?.mpr ⟨j, Ne.symm hij, hj⟩)
      rw [ho] at hq
      exact hq
    rw [Bool.or_eq_true, Bool.and_eq_true, decide_eq_true_eq] at hmay
    refine ⟨fun hfresh => ?_, fun k se hk hse => ?_, fun heq => ?_⟩
    · have hsafe := hmay.resolve_left fun h => by simp [hfresh] at h
      rwa [State.safe, if_pos hfresh] at hsafe
    · rw [hsessions] at hse
      rcases lock_sessions hr hopen huser hse with hheld | ⟨hold, hne⟩
      · exact hheld
      have hsafe := hmay.resolve_left fun h => hne (h.2.symm.trans hk)
      have hfresh : o.fresh ≠ true := fun hfresh => by
        rw [(hknown.fresh hfresh).1] at hk
        cases hk
      rw [State.safe, if_neg hfresh, hk, Option.bind_some, hold] at hsafe
      exact hsafe
    · have hle := hknown.epoch
      omega

/-! ## One step -/

structure Inv (s : State) : Prop where
  passed : s.passed = []
  /-- A lock request that passed the screen-lock gate. -/
  handled : ∀ r, .handle r .lock ∈ s.requests → r.copy.isLocked = false
  held : ∀ u, s.lockedFor = some u → Held s u

theorem gated_handle : State.gated r tok kind ≠ .handle o .lock := by
  unfold State.gated
  split
  · split <;> exact fun h => by cases h
  · exact fun h => by cases h

/-- What a request does keeps the browser locked, unless the request ends the lock or sets it. -/
theorem run_leaves (hk : Known s) (h : Held s u) (hi : s.requests[i]? = some p) (hlocked : s.lockedFor = some u)
    (hg : steady s (.run i ans) = true) (hrun : s.run p ans = some (s', p')) (hlock : s'.lockedFor = some u)
    (hnew : s'.locks = s.locks) : Leaves u s s' p' := by
  have hmem : p ∈ s.requests := List.mem_of_getElem? hi
  have hr {r : Req} (hp : p.req = some r) : r.Held s u := h.requests p hmem r hp
  have hknown {r : Req} (hp : p.req = some r) : r.Known s := hk.requests p hmem r hp
  have hstay {r r' : Req} {p' : Phase} (hp : p.req = some r) (hp' : p'.req = some r') (heq : r' = r) : Leaves u s s p' :=
    .go h fun o ho => by
      rw [← Option.some.inj (hp'.symm.trans ho), heq]
      exact hr hp
  unfold State.run at hrun
  split at hrun
  case h_1 r kind =>
    cases hrun
    exact gated_leaves h .refl rfl rfl (hr rfl)
  case h_2 r uid kind =>
    cases hrun
    have hmay : s.mayBind r uid .cloudflare = true := by simpa [steady, hi] using hg
    obtain ⟨hf, hheld⟩ := bindSessionUser_held (hr rfl) hlocked hlock hmay
    exact gated_leaves h hf bind_requests bind_cookie hheld
  case h_3 r token kind ends | h_10 r ends =>
    split at hrun
    · cases hrun
      exact .same h leave_frame leave_requests leave_cookie fun _ h => by cases h
    · cases hrun
      exact hstay rfl rfl rfl
  case h_4 r token =>
    split at hrun
    · cases hrun
      have hf : Frame u s (s.save r).1 := save_frame (hr rfl).fresh fun hold _ => ((hknown rfl).base hold).symm
      exact .same h hf save_requests save_cookie fun _ h => Option.some.inj h ▸ save_held (hr rfl) hf
    · cases hrun
      exact hstay rfl rfl rfl
  case h_5 r token ends =>
    cases hrun
    split
    · exact hstay rfl rfl rfl
    · exact .go h fun _ h => by cases h
  case h_6 r token =>
    split at hrun
    · cases hrun
      exact .go h fun _ h => by cases h
    next session hsession =>
      cases hrun
      refine .go h fun o ho => ?_
      obtain rfl := Option.some.inj ho
      obtain ⟨sid, hsid, hlookup⟩ := Option.bind_eq_some_iff.mp hsession
      have hheld : session.held u = true := (hr rfl).stored sid session hsid hlookup
      exact ⟨fun _ => hheld, (hr rfl).stored, fun _ => hheld⟩
  case h_7 r kind =>
    split at hrun
    · cases hrun
      exact hstay rfl rfl rfl
    · cases hrun
      have hf : Frame u s (s.pass r kind) := pass_frame
      exact .same h hf pass_requests pass_cookie fun _ ho => Option.some.inj ho ▸ (hr rfl).frame hf
  case h_8 r =>
    split at hrun
    · cases hrun
      exact hstay rfl rfl rfl
    · cases hrun
      exact absurd hnew (Nat.succ_ne_self _)
  case h_9 r =>
    split at hrun
    · cases hrun
      exact hstay rfl rfl rfl
    next huser =>
      cases hrun
      have hepoch : r.epoch ≠ s.locks := fun heq => by
        dsimp only at hlock
        rw [if_pos heq] at hlock
        cases hlock
      have hmay : s.mayUnlock r = true := by simpa [steady, hi] using hg
      exact unlock_leaves h (hr rfl) hlocked (by simpa [Option.isSome_iff_ne_none] using huser) hepoch hmay
  case h_11 r =>
    cases hrun
    have hf : Frame u s (s.destroy r.sid) := destroy_frame
    exact ⟨⟨hf.locks, hf.sessions⟩, destroy_requests, fun k se hk => (by cases hk), fun _ h => by cases h⟩
  case h_12 r kind _ _ _ =>
    cases hrun
    exact hstay rfl rfl rfl
  case h_13 r =>
    cases hrun
    exact .go h fun o ho => Option.some.inj ho ▸ start_held (hknown rfl) (hr rfl)
  case h_14 r ends =>
    cases hrun
    exact hstay rfl rfl rfl
  case h_15 r google ends =>
    cases hrun
    exact .go h fun o ho => Option.some.inj ho ▸ (hr rfl).flow
  case h_16 r uid =>
    cases hrun
    have hmay : s.mayBind r uid .google = true := by simpa [steady, hi] using hg
    obtain ⟨hf, hheld⟩ := bindSessionUser_held (hr rfl).flow hlocked hlock hmay
    exact .same h hf bind_requests bind_cookie fun _ ho => Option.some.inj ho ▸ hheld
  case h_17 r uid =>
    cases hrun
    have hmay : s.late r = true := by simpa [steady, hi, hlocked] using hg
    obtain ⟨hf, hheld⟩ := signIn_held hlock fun hlate => absurd (hmay.symm.trans hlate) (by simp)
    exact .same h hf rfl rfl fun _ ho => Option.some.inj ho ▸ hheld
  case h_18 r =>
    cases hrun
    exact finish_leaves h (hr rfl) (save_frame (hr rfl).fresh fun hold _ => ((hknown rfl).base hold).symm)
  case h_19 => cases hrun


/-- A step that passes no request and sets no lock. -/
structure Quiet (s s' : State) (p' : Phase) : Prop where
  passed : s'.passed = s.passed
  locks : s'.locks = s.locks
  lockedFor : ∀ u, s'.lockedFor = some u → s.lockedFor = some u
  handle : ∀ r, p' ≠ .handle r .lock

theorem Quiet.same (h : ∀ r, p' ≠ .handle r .lock) : Quiet s s p' := ⟨rfl, rfl, fun _ h => h, h⟩

theorem Quiet.save (h : ∀ r, p' ≠ .handle r .lock) : Quiet s (s.save r).1 p' := by
  unfold State.save
  split <;> exact ⟨rfl, rfl, fun _ h => h, h⟩

theorem Quiet.leave : Quiet s (s.leave r) .done := by
  unfold State.leave
  split
  · exact ⟨rfl, rfl, fun _ h => h, fun _ h => by cases h⟩
  · cases r.sid <;> exact ⟨rfl, rfl, fun _ h => h, fun _ h => by cases h⟩

theorem Quiet.signIn (h : ∀ r, p' ≠ .handle r .lock) : Quiet s (s.signIn r session).1 p' := by
  refine ⟨rfl, rfl, fun u hu => ?_, h⟩
  rw [State.signIn] at hu
  dsimp only at hu
  split at hu
  · cases hu
  · exact hu

theorem Quiet.bind (h : ∀ r, p' ≠ .handle r .lock) : Quiet s (s.bindSessionUser r uid method).1 p' := by
  unfold State.bindSessionUser
  split
  · exact .same h
  · exact .signIn h

theorem Quiet.finish : Quiet s (s.finish r) .done := by
  have h : Quiet s (s.save r).1 .done := .save fun _ h => by cases h
  exact ⟨h.passed, h.locks, h.lockedFor, h.handle⟩

theorem run_cases (hrun : s.run p ans = some (s', p')) : Quiet s s' p' ∨
    (∃ r kind, p = .check r kind ∧ (r.copy.isLocked && !kind.passes) = false ∧ s' = s.pass r kind ∧ p' = .handle r kind) ∨
    (∃ r u, p = .handle r .lock ∧ ans = .next ∧ r.copy.userId = some u ∧ p' = .done ∧
      s' = { s.finish r.lock with lockedFor := some u, locks := s.locks + 1, signedOut := false }) := by
  unfold State.run at hrun
  split at hrun
  case h_1 r kind =>
    cases hrun
    exact .inl (.same fun _ => gated_handle)
  case h_2 r uid kind =>
    cases hrun
    exact .inl (.bind fun _ => gated_handle)
  case h_3 r token kind ends | h_10 r ends =>
    split at hrun
    · cases hrun
      exact .inl .leave
    · cases hrun
      exact .inl (.same fun _ h => by cases h)
  case h_4 r token =>
    split at hrun
    · cases hrun
      exact .inl (.save fun _ h => by cases h)
    · cases hrun
      exact .inl (.same fun _ h => by cases h)
  case h_5 r token ends =>
    cases hrun
    exact .inl (.same fun _ h => by split at h <;> cases h)
  case h_6 r token =>
    split at hrun
    · cases hrun
      exact .inl (.same fun _ h => by cases h)
    · cases hrun
      exact .inl (.same fun _ h => by cases h)
  case h_7 r kind =>
    split at hrun
    · cases hrun
      exact .inl (.same fun _ h => by cases h)
    next hopen =>
      cases hrun
      exact .inr (.inl ⟨r, kind, rfl, by simpa using hopen, rfl, rfl⟩)
  case h_8 r =>
    split at hrun
    · cases hrun
      exact .inl (.same fun _ h => by cases h)
    next huser =>
      cases hrun
      obtain ⟨u, hu⟩ := Option.ne_none_iff_exists'.mp (by simpa using huser)
      exact .inr (.inr ⟨r, u, rfl, rfl, hu, rfl, by rw [hu]; rfl⟩)
  case h_9 r =>
    split at hrun
    · cases hrun
      exact .inl (.same fun _ h => by cases h)
    · cases hrun
      have h : Quiet s (s.finish { r with copy := { r.copy with locked := some false } }) .done := .finish
      refine .inl ⟨h.passed, h.locks, fun u hu => ?_, h.handle⟩
      dsimp only at hu
      split at hu
      · cases hu
      · exact hu
  case h_11 r =>
    cases hrun
    exact .inl (by cases r.sid <;> exact ⟨rfl, rfl, fun _ h => h, fun _ h => by cases h⟩)
  case h_12 r kind hlock _ _ =>
    cases hrun
    exact .inl (.same fun _ h => by cases h)
  case h_13 | h_14 | h_15 =>
    cases hrun
    exact .inl (.same fun _ h => by cases h)
  case h_16 r uid =>
    cases hrun
    exact .inl (.bind fun _ h => by cases h)
  case h_17 r uid =>
    cases hrun
    have h : Quiet s (s.signIn r { userId := some uid }).1 (.answer (s.signIn r { userId := some uid }).2) := .signIn fun _ h => by cases h
    exact .inl h
  case h_18 r =>
    cases hrun
    exact .inl .finish
  case h_19 => cases hrun

theorem run_inv (hk : Known s) (h : Inv s) (hi : s.requests[i]? = some p) (hg : steady s (.run i ans) = true)
    (hrun : s.run p ans = some (s', p')) : Inv { s' with requests := s'.requests.set i p' } := by
  have hmem : p ∈ s.requests := List.mem_of_getElem? hi
  have hrequests : s'.requests = s.requests := (run_step ⟨hk.stored, hk.cookie⟩ (hk.requests p hmem) hrun).requests
  have hhandled (hp' : ∀ r, p' = .handle r .lock → r.copy.isLocked = false) (r : Req)
      (hr : .handle r .lock ∈ s'.requests.set i p') : r.copy.isLocked = false := by
    rw [hrequests] at hr
    obtain ⟨j, hj⟩ := List.mem_iff_getElem?.mp hr
    rcases (Agents.getElem?_set_some hi).mp hj with ⟨-, heq⟩ | ⟨-, hj⟩
    · exact hp' r heq.symm
    · exact h.handled r (List.mem_of_getElem? hj)
  rcases run_cases hrun with hquiet | ⟨r, kind, rfl, hopen, rfl, rfl⟩ | ⟨r, u, rfl, rfl, huser, rfl, rfl⟩
  · refine ⟨hquiet.passed.trans h.passed, hhandled fun r heq => absurd heq (hquiet.handle r), fun u hu => ?_⟩
    have hlocked : s.lockedFor = some u := hquiet.lockedFor u hu
    have hs : Held s u := h.held u hlocked
    exact (run_leaves hk hs hi hlocked hg hrun hu hquiet.locks).next hs hi
  · have hlocked : (s.pass r kind).lockedFor = s.lockedFor ∧ (s.pass r kind).locks = s.locks := by
      unfold State.pass
      split <;> exact ⟨rfl, rfl⟩
    refine ⟨?_, hhandled fun r heq => ?_, fun u hu => ?_⟩
    · change (s.pass r kind).passed = []
      unfold State.pass
      split
      next hpass =>
        -- a request that came after the lock holds the locked session
        simp only [Bool.and_eq_true, Bool.not_eq_true', decide_eq_true_eq] at hpass
        obtain ⟨⟨⟨hsome, hepoch⟩, huser⟩, hkind⟩ := hpass
        obtain ⟨u, hu⟩ := Option.isSome_iff_exists.mp hsome
        have hheld : r.copy.held u = true := ((h.held u hu).requests _ hmem r rfl).copy hepoch
        simp [(Session.held_some hheld huser).2, hkind] at hopen
      next => exact h.passed
    · cases heq
      simpa [Kind.passes] using hopen
    · have hu' : s.lockedFor = some u := hlocked.1.symm.trans hu
      have hs : Held s u := h.held u hu'
      exact (run_leaves hk hs hi hu' hg hrun hu hlocked.2).next hs hi
  · refine ⟨?_, hhandled fun r heq => (by cases heq), fun v hv => ?_⟩
    · have hquiet : Quiet s (s.finish r.lock) .done := .finish
      exact hquiet.passed.trans h.passed
    · obtain rfl : u = v := Option.some.inj hv
      have hmay : s.mayLock i r = true := by simpa [steady, hi] using hg
      exact lock_held hk hi (h.handled r hmem) huser hmay rfl rfl rfl (congrArg (·.set i .done) hrequests)

/-- The session that a request is loaded with. -/
theorem load_held (h : Held s u) : s.load.Held s u := by
  have hstored (k : Sid) (se : Session) (hk : s.load.sid = some k) (hse : s.sessions.lookup k = some se) : se.held u = true :=
    h.cookie k se (Option.filter_eq_some_iff.mp hk).1 hse
  refine ⟨fun hfresh => (by cases hfresh), hstored, fun _ => ?_⟩
  change ((s.load.sid.bind s.sessions.lookup).getD {}).held u = true
  cases hload : s.load.sid.bind s.sessions.lookup with
  | none => rfl
  | some se =>
    obtain ⟨k, hk, hse⟩ := Option.bind_eq_some_iff.mp hload
    exact hstored k se hk hse

theorem Inv.receive (h : Inv s) (hp : ∀ u, s.lockedFor = some u → ∀ r, p.req = some r → r.Held s u) (hhandle : ∀ r, p ≠ .handle r .lock) :
    Inv { s with requests := s.requests ++ [p] } := by
  refine ⟨h.passed, fun r hr => ?_, fun u hu => ⟨(h.held u hu).cookie, fun q hq r hr => ?_⟩⟩
  · rcases List.mem_append.mp hr with hr | hr
    · exact h.handled r hr
    · exact absurd (List.mem_singleton.mp hr).symm (hhandle r)
  · have hheld : r.Held s u := by
      rcases List.mem_append.mp hq with hq | hq
      · exact (h.held u hu).requests q hq r hr
      · exact hp u hu r (List.mem_singleton.mp hq ▸ hr)
    exact ⟨hheld.fresh, hheld.stored, hheld.copy⟩

theorem inv_invariant : system.Invariant (fun s l => steady s l = true) fun s => Known s ∧ Inv s := by
  refine known_invariant.strengthen (fun s h => ?_) fun s l s' hk h hg hstep => ?_
  · refine ⟨h.passed, fun r hr => ?_, fun u hu => ?_⟩
    · rw [h.requests] at hr
      cases hr
    · rw [h.lockedFor] at hu
      cases hu
  cases l with
  | request token kind =>
    cases hstep
    unfold State.receive
    split
    · exact h.receive (fun u hu r hr => Option.some.inj hr ▸ load_held (h.held u hu)) fun _ h => by cases h
    · exact h.receive (fun u hu r hr => Option.some.inj hr ▸ load_held (h.held u hu)) fun _ h => by cases h
  | start =>
    cases hstep
    unfold State.receiveStart
    split
    · exact h.receive (fun u hu r hr => Option.some.inj hr ▸ load_held (h.held u hu)) fun _ h => by cases h
    · exact h.receive (fun u hu r hr => Option.some.inj hr ▸ load_held (h.held u hu)) fun _ h => by cases h
  | callback google =>
    cases hstep
    unfold State.receiveCallback
    split
    · exact h.receive (fun u hu r hr => Option.some.inj hr ▸ (load_held (h.held u hu)).flow) fun _ h => by cases h
    · exact h.receive (fun u hu r hr => Option.some.inj hr ▸ load_held (h.held u hu)) fun _ h => by cases h
  | endSession sid =>
    cases hstep
    refine ⟨h.passed, h.handled, fun u hu => ?_⟩
    have hs : Held s u := h.held u hu
    have hf : Frame u s (s.destroy (some sid)) := destroy_frame
    exact ⟨fun k se hk => hf.held fun se => hs.cookie k se hk, fun q hq r hr => (hs.requests q hq r hr).frame hf⟩
  | run i ans =>
    change step s (.run i _) = _ at hstep
    rw [step] at hstep
    split at hstep
    · cases hstep
    next p hi =>
      obtain ⟨⟨s₁, p'⟩, hrun, rfl⟩ := Option.map_eq_some_iff.mp hstep
      exact run_inv hk h hi hg hrun

/-- Since the last lock that holds, no request that came has passed the screen-lock gate but the allowed ones, and the browser's session is
not one of the locked user without the lock. -/
def OpensOnlyWithPin (s : State) : Prop :=
  s.passed = [] ∧ ∀ u k se, s.lockedFor = some u → s.cookie = some k → s.sessions.lookup k = some se → se.userId = some u →
    se.isLocked = true

/-- In every run in which no request writes over a lock, a locked screen opens only with the PIN, or after a sign-out. -/
theorem opens_only_with_pin (h : system.ReachesUnder (fun s l => steady s l = true) s) : OpensOnlyWithPin s := by
  have hinv : Inv s := (inv_invariant.reachesUnder h).2
  refine ⟨hinv.passed, fun u k se hu hk hse huser => ?_⟩
  have hheld : se.held u = true := (hinv.held u hu).cookie k se hk hse
  exact (Session.held_some hheld (huser ▸ rfl)).2

def state₀ : State := { sessions := ∅, nextSid := 0, cookie := none, requests := [] }

theorem init_state₀ : system.init state₀ := ⟨rfl, rfl, rfl, rfl, rfl⟩

/-- User 7 signs in with OIDC. -/
def signIn : List Label := [.start, .run 0 .next, .run 0 .next, .callback false, .run 1 (.user 7), .run 1 .next]

/-- The screen is locked, and the next request is refused. -/
theorem opens_only_with_pin_locked : ∃ s, system.ReachesUnder (fun s l => steady s l = true) s ∧ OpensOnlyWithPin s ∧
    s.lockedFor = some 7 ∧ s.requests.length = 4 := by
  have htrace : (system.exec (fun s l => steady s l = true) state₀ (signIn ++ [.request none .lock, .run 2 .next, .run 2 .next, .run 2 .next,
      .request none .plain, .run 3 .next, .run 3 .next, .run 3 .next])).any
      (fun s => decide (s.lockedFor = some 7 ∧ s.requests.length = 4)) = true := by decide +kernel
  obtain ⟨s, hs, hp⟩ := TransitionSystem.reaches_of_exec init_state₀ htrace
  exact ⟨s, hs, opens_only_with_pin hs, of_decide_eq_true hp⟩

/-- An OIDC callback looked at the lock before it waits for the provider. The screen is locked meanwhile, and the callback's answer gives the
browser an unlocked session of the same user. -/
theorem not_opens_only_with_pin : ¬ ∀ s, system.Reachable s → OpensOnlyWithPin s := by
  intro h
  have htrace : (system.exec TransitionSystem.anyStep state₀ (signIn ++ [.start, .run 2 .next, .run 2 .next, .callback false,
      .request none .lock, .run 4 .next, .run 4 .next, .run 4 .next, .run 3 (.user 7), .run 3 .next])).any
      (fun s => decide (s.lockedFor = some 7 ∧ s.cookie = some 2 ∧ s.sessions.lookup 2 = some { userId := some 7 })) = true := by
    decide +kernel
  obtain ⟨s, hs, hp⟩ := TransitionSystem.reaches_of_exec init_state₀ htrace
  obtain ⟨hlocked, hcookie, hsession⟩ := of_decide_eq_true hp
  have hisLocked := (h s hs).2 7 2 _ hlocked hcookie hsession rfl
  cases hisLocked

end MailExpert.ScreenLock
