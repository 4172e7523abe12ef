import MailExpert.Oidc.Sessions

/-!
# Each flow is used once

What a request that goes on rests on (`Phase.Good`), and the invariant of the runs in which callbacks of one flow do not overlap and no
session ends under a link (`Inv`).
-/

namespace MailExpert.Oidc

variable {toLowerCase : String → String} {w w' : World} {s s' t : State} {sid : Sid} {se : Session} {p p' q : Phase} {c d : Callback}
  {answer : Answer} {uid : UserId} {row : User} {payload : Payload} {provider : Provider} {r : Start} {i j : Nat} {l : Label}
  {ended : Option Sid} {used : Option Callback} {st : Started} {x : Use}

/-- The callback comes from a flow that its session started last, less than ten minutes before. -/
structure Callback.Of (c : Callback) (st : Started) : Prop where
  last : c.last = some st
  sid : st.sid = c.sid
  pending : st.pending = c.pending
  time : c.time < st.time + TEN_MINUTES
  state : c.state = st.pending.state
  link : c.pending.action = .link → c.pending.linkUserId = st.userId

/-- A use of a flow by its own session, as it should be. -/
structure Use.Sound (x : Use) : Prop where
  flow : ∃ st, x.callback.Of st ∧ x.nonce = st.pending.nonce ∧ ∀ session, x.effect = .linked session → st.userId = some x.user ∧
    ∃ se, session = some se ∧ se.userId = some x.user
  enabled : ∀ row, x.effect = .opened row → row.disabled = false

def Phase.active : Phase → Option Callback
  | .finish _ => none
  | p => p.callback

def Phase.linking : Phase → Option Callback
  | .provider c | .discover c _ | .exchange c _ | .link c _ _ => some c
  | _ => none

def Phase.start? : Phase → Option Start
  | .startProvider r _ | .startDiscover r _ | .startSave r _ _ => some r
  | _ => none

/-- The session that a step of the request ends. -/
def Phase.ends : Phase → Option Sid
  | .regenerate c _ _ _ => some c.sid
  | _ => none

/-- What the checks of a callback left. -/
def Phase.Verified : Phase → Prop
  | .link c uid payload => payload.nonce = c.pending.nonce ∧ c.pending.action = .link ∧ c.pending.linkUserId = some uid
  | .findIdentity c _ payload | .findUser c _ payload | .matchUser c _ payload | .provision c _ payload | .createUser c _ payload =>
    payload.nonce = c.pending.nonce
  | .insertIdentity c _ row payload => payload.nonce = c.pending.nonce ∧ row.disabled = false
  | .regenerate c _ row nonce | .save c _ row nonce => nonce = c.pending.nonce ∧ row.disabled = false
  | _ => True

theorem Phase.callback_of_active (h : p.active = some c) : p.callback = some c := by
  cases p <;> first | exact h | cases h

theorem Phase.callback_of_linking (h : p.linking = some c) : p.callback = some c := by
  cases p <;> first | exact h | cases h

structure Callback.At (w : World) (c : Callback) : Prop where
  flow : ∃ st, c.Of st
  known : c.pending.state < w.nextState
  own : ∀ sid se p, w.sessions.lookup sid = some se → se.oidcPending = some p → p.state = c.pending.state → sid = c.sid

/-- No callback used the flow. -/
def World.Unused (w : World) (c : Callback) : Prop := ∀ x ∈ w.uses, x.callback.pending.state ≠ c.pending.state

/-- The session that a link is for is there, and still the user's. -/
def World.Linkable (w : World) (c : Callback) : Prop := c.pending.action = .link →
  ∃ se, w.sessions.lookup c.sid = some se ∧ c.sid < w.nextSid ∧ ∀ st, c.last = some st → se.userId = st.userId

/-- No session has the flow. -/
def World.Gone (w : World) (c : Callback) : Prop :=
  ∀ sid se p, w.sessions.lookup sid = some se → se.oidcPending = some p → p.state ≠ c.pending.state

structure Phase.Good (w : World) (p : Phase) : Prop where
  start : ∀ r, p.start? = some r → r.At w ∧ (r.sid = none → r.userId = none)
  callback : ∀ c, p.callback = some c → c.At w
  active : ∀ c, p.active = some c → w.Unused c
  linking : ∀ c, p.linking = some c → w.Linkable c
  verified : p.Verified
  gone : ∀ c uid row nonce, p = .save c uid row nonce → w.Gone c

theorem Callback.At.keeps (h : c.At w) (hk : Keeps ended used w w') : c.At w' where
  flow := h.flow
  known := h.known.trans_le hk.nextState
  own sid se p hs hp heq := by
    rcases hk.stored sid se p hs hp with ⟨se₀, hs₀, hp₀⟩ | hle
    · exact h.own sid se₀ p hs₀ hp₀ heq
    · exact absurd h.known (not_lt.mpr (heq ▸ hle))

theorem World.Unused.keeps (h : w.Unused c) (hk : Keeps ended used w w') (hused : ∀ d, used = some d → d.pending.state ≠ c.pending.state) :
    w'.Unused c := by
  intro x hx
  rcases hk.uses x hx with hx | hx
  · exact h x hx
  · exact hused _ hx

theorem World.Linkable.keeps (h : w.Linkable c) (hk : Keeps ended used w w')
    (hended : c.pending.action = .link → ended ≠ some c.sid) : w'.Linkable c := by
  intro hlink
  obtain ⟨se, hse, hlt, huser⟩ := h hlink
  obtain ⟨se', hse', heq⟩ := hk.stays c.sid se hlt (hended hlink) hse
  exact ⟨se', hse', hlt.trans_le hk.nextSid, fun st hst => heq ▸ huser st hst⟩

theorem World.Gone.keeps (h : w.Gone c) (hknown : c.pending.state < w.nextState) (hk : Keeps ended used w w') : w'.Gone c := by
  intro sid se p hs hp heq
  rcases hk.stored sid se p hs hp with ⟨se₀, hs₀, hp₀⟩ | hle
  · exact h sid se₀ p hs₀ hp₀ heq
  · exact absurd hknown (not_lt.mpr (heq ▸ hle))

/-- What a request rests on stays so, while no other uses its flow or ends the session of its link. -/
theorem Phase.Good.keeps (h : p.Good w) (hk : Keeps ended used w w')
    (hused : ∀ c d, p.active = some c → used = some d → d.pending.state ≠ c.pending.state)
    (hended : ∀ c, p.linking = some c → c.pending.action = .link → ended ≠ some c.sid) : p.Good w' where
  start r hr := (h.start r hr).imp_left fun hat => hat.keeps hk
  callback c hc := (h.callback c hc).keeps hk
  active c hc := (h.active c hc).keeps hk fun d hd => hused c d hc hd
  linking c hc := (h.linking c hc).keeps hk (hended c hc)
  verified := h.verified
  gone c uid row nonce heq := (h.gone c uid row nonce heq).keeps (h.callback c (by rw [heq]; rfl)).known hk

theorem Phase.Good.go (h : p.Good w) (hc : p.active = some c) (hstart : p'.start? = none) (hcallback : p'.callback = some c)
    (hlinking : p'.linking = none ∨ p.linking = some c) (hverified : p'.Verified)
    (hsave : ∀ c uid row nonce, p' ≠ .save c uid row nonce) : p'.Good w where
  start r hr := by simp [hstart] at hr
  callback d hd := by
    rw [hcallback] at hd
    exact Option.some.inj hd ▸ h.callback c (callback_of_active hc)
  active d hd := by
    rw [← Option.some.inj (hcallback.symm.trans (callback_of_active hd))]
    exact h.active c hc
  linking d hd := by
    obtain rfl := Option.some.inj (hcallback.symm.trans (callback_of_linking hd))
    rcases hlinking with hnone | hl
    · rw [hnone] at hd
      cases hd
    · exact h.linking _ hl
  verified := hverified
  gone c uid row nonce heq := absurd heq (hsave c uid row nonce)

theorem Phase.Good.trivial (hstart : p.start? = none) (hcallback : p.callback = none) (hverified : p.Verified) : p.Good w where
  start r hr := by simp [hstart] at hr
  callback c hc := by simp [hcallback] at hc
  active c hc := by simp [callback_of_active hc] at hcallback
  linking c hc := by simp [callback_of_linking hc] at hcallback
  verified := hverified
  gone c uid row nonce heq := by
    subst heq
    cases hcallback

theorem Phase.Good.finish (h : c.At w) : (Phase.finish c).Good w where
  start r hr := by cases hr
  callback d hd := Option.some.inj hd ▸ h
  active d hd := by cases hd
  linking d hd := by cases hd
  verified := True.intro
  gone d uid row nonce heq := by cases heq

structure World.Identities (w : World) : Prop where
  known : ∀ k i, w.identities.lookup k = some i → k < w.nextIdentity
  unique : ∀ k k' i i', w.identities.lookup k = some i → w.identities.lookup k' = some i' → i.issuer = i'.issuer →
    i.subject = i'.subject → k = k'

structure World.Good (w : World) : Prop where
  sessions : w.Sessions
  identities : w.Identities
  used : ∀ x ∈ w.uses, x.callback.pending.state < w.nextState
  sound : ∀ x ∈ w.uses, x.Sound
  once : (w.uses.map (·.callback.pending.state)).Nodup

theorem World.Identities.of_eq (h : w.Identities) (hi : w'.identities = w.identities) (hn : w'.nextIdentity = w.nextIdentity) :
    w'.Identities where
  known k i hk := hn ▸ h.known k i (hi ▸ hk)
  unique k k' i i' hk hk' := h.unique k k' i i' (hi ▸ hk) (hi ▸ hk')

theorem World.Identities.delete {f : IdentityId → Identity → Bool} (h : w.Identities) (hi : w'.identities = w.identities.delete f)
    (hn : w'.nextIdentity = w.nextIdentity) : w'.Identities := by
  have hold {k : IdentityId} {i : Identity} (hk : w'.identities.lookup k = some i) : w.identities.lookup k = some i := by
    rw [hi, Table.lookup_delete] at hk
    exact (Option.filter_eq_some_iff.mp hk).1
  exact ⟨fun k i hk => hn ▸ h.known k i (hold hk), fun k k' i i' hk hk' => h.unique k k' i i' (hold hk) (hold hk')⟩

theorem World.Identities.addIdentity {id : ProviderId} (h : w.Identities) (hnone : (w.identity? payload).isSome = false) :
    (w.addIdentity uid id payload).Identities := by
  have hother {k : IdentityId} {i : Identity} (hk : w.identities.lookup k = some i) (hiss : i.issuer = payload.iss)
      (hsub : i.subject = payload.sub) : False := by
    have hfree := Table.find?_none (Option.isSome_eq_false_iff.mp hnone |> Option.isNone_iff_eq_none.mp) hk
    simp [hiss, hsub] at hfree
  refine ⟨fun k i hk => ?_, fun k k' i i' hk hk' hiss hsub => ?_⟩
  · rw [World.addIdentity, Table.lookup_insert'] at hk
    split at hk
    next heq => exact heq ▸ Nat.lt_succ_self _
    next => exact (h.known k i hk).trans (Nat.lt_succ_self _)
  · rw [World.addIdentity, Table.lookup_insert'] at hk hk'
    split at hk <;> split at hk'
    next heq heq' => rw [heq, heq']
    next =>
      cases hk
      exact (hother hk' hiss.symm hsub.symm).elim
    next =>
      cases hk'
      exact (hother hk hiss hsub).elim
    next => exact h.unique k k' i i' hk hk' hiss hsub

theorem World.Identities.upsertIdentity {id : ProviderId} (h : w.Identities) : (w.upsertIdentity uid id payload).Identities := by
  rw [World.upsertIdentity]
  split
  · exact h
  next hnone => exact h.addIdentity (by simpa using hnone)

theorem World.Good.of_uses (h : w.Good) (hs : w'.Sessions) (hi : w'.Identities) (huses : w'.uses = w.uses)
    (hstate : w.nextState ≤ w'.nextState) : w'.Good where
  sessions := hs
  identities := hi
  used x hx := (h.used x (huses ▸ hx)).trans_le hstate
  sound := huses ▸ h.sound
  once := huses ▸ h.once

theorem World.Good.of_rows (h : w.Good) (hi : w'.Identities) (hsessions : w'.sessions = w.sessions) (hsid : w'.nextSid = w.nextSid)
    (hstarted : w'.started = w.started) (hstate : w'.nextState = w.nextState) (huses : w'.uses = w.uses) : w'.Good :=
  h.of_uses (h.sessions.of_eq hsessions hsid hstarted hstate) hi huses hstate.ge

theorem World.Good.use (h : w.Good) (huses : w'.uses = x :: w.uses) (hs : w'.Sessions) (hi : w'.Identities)
    (hstate : w.nextState ≤ w'.nextState) (hknown : x.callback.pending.state < w.nextState) (hunused : w.Unused x.callback)
    (hsound : x.Sound) : w'.Good where
  sessions := hs
  identities := hi
  used y hy := by
    rcases List.mem_cons.mp (huses ▸ hy) with rfl | hy
    · exact hknown.trans_le hstate
    · exact (h.used y hy).trans_le hstate
  sound y hy := by
    rcases List.mem_cons.mp (huses ▸ hy) with rfl | hy
    · exact hsound
    · exact h.sound y hy
  once := by
    rw [huses, List.map_cons, List.nodup_cons]
    refine ⟨fun hmem => ?_, h.once⟩
    obtain ⟨y, hy, heq⟩ := List.mem_map.mp hmem
    exact hunused y hy heq

end MailExpert.Oidc
