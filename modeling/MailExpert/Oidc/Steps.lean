import MailExpert.Oidc.Once

/-!
# One step of a request

What a step of a request makes of the stored rows, of the request itself and of what the others rest on (`run_next`), and what comes
from elsewhere does (`change_good`, `change_keeps`).
-/

namespace MailExpert.Oidc

variable {toLowerCase : String → String} {w w' : World} {sid : Sid} {se : Session} {p p' q : Phase} {c d : Callback}
  {answer : Answer} {uid : UserId} {row : User} {payload : Payload} {provider : Provider} {r : Start}
  {ended : Option Sid} {used : Option Callback}

def Phase.reads (w : World) : Phase → Option User
  | .findUser _ uid _ => w.users.lookup uid
  | .matchUser _ username _ | .provision _ username _ => (w.named username).map (·.2)
  | _ => none

/-- The outcome of a step of the request `p`. -/
structure Next (w : World) (p : Phase) (w' : World) (p' : Phase) : Prop where
  good : w'.Good
  request : p'.Good w'
  keeps : Keeps p.ends p.callback w w'
  callback : ∀ c, p'.callback = some c → p.callback = some c
  /-- A callback ends when no session has its flow. -/
  left : ∀ c, p.callback = some c → p'.callback = some c ∨ w'.Gone c

theorem Next.read (hw : w.Good) (h : p'.Good w) (hc : p'.callback = p.callback) : Next w p w p' :=
  ⟨hw, h, .refl, fun _ h => hc ▸ h, fun _ h => .inl (hc ▸ h)⟩

theorem Next.done (hw : w'.Good) (hk : Keeps p.ends p.callback w w') (hgone : ∀ c, p.callback = some c → w'.Gone c) : Next w p w' .done :=
  ⟨hw, .trivial rfl rfl trivial, hk, fun c hc => (by cases hc), fun c hc => .inr (hgone c hc)⟩

theorem Next.finish (hw : w.Good) (hp : p.Good w) (hc : p.callback = some c) : Next w p w (.finish c) :=
  .read hw (.finish (hp.callback c hc)) hc.symm

theorem Next.go (hw : w.Good) (hp : p.Good w) (hc : p.active = some c) (hstart : p'.start? = none) (hcallback : p'.callback = some c)
    (hlinking : p'.linking = none ∨ p.linking = some c) (hverified : p'.Verified)
    (hsave : ∀ c uid row nonce, p' ≠ .save c uid row nonce) : Next w p w p' :=
  .read hw (hp.go hc hstart hcallback hlinking hverified hsave) (hcallback.trans (Phase.callback_of_active hc).symm)

theorem verified_next (hw : w.Good) (hp : (Phase.exchange c provider).Good w) :
    Next w (.exchange c provider) w (c.verified toLowerCase provider payload) := by
  unfold Callback.verified
  split
  · exact .finish hw hp rfl
  next hnonce =>
  split
  · exact .finish hw hp rfl
  split
  · exact .finish hw hp rfl
  split
  next hlink =>
    split
    · exact .finish hw hp rfl
    next uid huid =>
      exact .go hw hp rfl rfl rfl (.inr rfl) ⟨not_not.mp hnonce, hlink, huid⟩ fun _ _ _ _ h => by cases h
  next => exact .go hw hp rfl rfl rfl (.inl rfl) (not_not.mp hnonce) fun _ _ _ _ h => by cases h

theorem provisioning_next (hw : w.Good) (hp : (Phase.findIdentity c provider payload).Good w) :
    Next w (.findIdentity c provider payload) w (c.provisioning toLowerCase provider payload) := by
  unfold Callback.provisioning
  split
  · split
    · exact .finish hw hp rfl
    · exact .go hw hp rfl rfl rfl (.inl rfl) hp.verified fun _ _ _ _ h => by cases h
  · split
    · exact .finish hw hp rfl
    · exact .go hw hp rfl rfl rfl (.inl rfl) hp.verified fun _ _ _ _ h => by cases h
  · exact .finish hw hp rfl

theorem Next.rows {w₁ : World} (h : Next w p w₁ p') (hi : w'.Identities) (hsessions : w'.sessions = w₁.sessions) (hsid : w'.nextSid = w₁.nextSid)
    (hstarted : w'.started = w₁.started) (hstate : w'.nextState = w₁.nextState) (huses : w'.uses = w₁.uses) : Next w p w' p' := by
  have hk : Keeps none none w₁ w' := .of_sessions hsessions hsid hstate fun x hx => .inl (huses ▸ hx)
  exact {
    good := h.good.of_rows hi hsessions hsid hstarted hstate huses
    request := h.request.keeps hk (fun _ _ _ h => by cases h) fun _ _ _ h => by cases h
    keeps := h.keeps.trans hk
    callback := h.callback
    left := fun c hc => (h.left c hc).imp_right fun hgone sid se p hs => hgone sid se p (hsessions ▸ hs) }

theorem Next.upsert {id : ProviderId} (h : Next w p w' p') : Next w p (w'.upsertIdentity uid id payload) p' := by
  have hi : (w'.upsertIdentity uid id payload).Identities := h.good.identities.upsertIdentity
  unfold World.upsertIdentity at hi ⊢
  split at hi
  next hsome => rwa [if_pos hsome]
  next hnone =>
    rw [if_neg hnone]
    exact h.rows hi rfl rfl rfl rfl rfl

theorem link_next (hw : w.Good) (hp : (Phase.link c uid payload).Good w) (hnone : (w.identity? payload).isSome = false) :
    Next w (.link c uid payload) { w.addIdentity uid c.pending.providerId payload with
      uses := { callback := c, nonce := payload.nonce, user := uid, effect := .linked (w.sessions.lookup c.sid) } :: w.uses } (.finish c) := by
  have hat := hp.callback c rfl
  have hk : Keeps none (some c) w { w.addIdentity uid c.pending.providerId payload with
      uses := { callback := c, nonce := payload.nonce, user := uid, effect := .linked (w.sessions.lookup c.sid) } :: w.uses } :=
    .of_sessions rfl rfl rfl fun x hx => (List.mem_cons.mp hx).symm.imp_right fun heq => by rw [heq]
  refine ⟨hw.use rfl (hw.sessions.of_eq rfl rfl rfl rfl) ?_ le_rfl hat.known (hp.active c rfl) ?_, .finish (hat.keeps hk), hk, fun _ h => h,
    fun _ h => .inl h⟩
  · exact (hw.identities.addIdentity hnone).of_eq rfl rfl
  · obtain ⟨hnonce, hlink, hlinkUser⟩ := hp.verified
    obtain ⟨st, hof⟩ := hat.flow
    obtain ⟨se, hse, -, huser⟩ := hp.linking c rfl hlink
    have hst : st.userId = some uid := (hof.link hlink).symm.trans hlinkUser
    refine ⟨⟨st, hof, hnonce.trans (congrArg Pending.nonce hof.pending.symm), fun session heq => ?_⟩, fun row heq => by cases heq⟩
    obtain rfl := (Effect.linked.inj heq).symm
    exact ⟨hst, se, hse, (huser st hof.last).trans hst⟩

theorem save_next {nonce : Nat} (hw : w.Good) (hp : (Phase.save c uid row nonce).Good w) :
    Next w (.save c uid row nonce) { w.addSession { userId := some uid } with
      uses := { callback := c, nonce, user := uid, effect := .opened row } :: w.uses } .done := by
  have hat := hp.callback c rfl
  obtain ⟨hnonce, henabled⟩ := hp.verified
  have hadd : Keeps none (some c) w (w.addSession { userId := some uid }) := Keeps.refl.addSession fun p hp => by cases hp
  refine .done (hw.use rfl ?_ (hw.identities.of_eq rfl rfl) le_rfl hat.known (hp.active c rfl) ?_) { hadd with uses := fun x hx => ?_ } ?_
  · exact (hw.sessions.addSession rfl).of_eq rfl rfl rfl rfl
  · obtain ⟨st, hof⟩ := hat.flow
    exact ⟨⟨st, hof, hnonce.trans (congrArg Pending.nonce hof.pending.symm), fun _ h => by cases h⟩, fun _ h => Effect.opened.inj h ▸ henabled⟩
  · exact (List.mem_cons.mp hx).symm.imp_right fun heq => by rw [heq]; rfl
  · intro d hd sid se p hs
    exact Option.some.inj hd ▸ (hp.gone c uid row nonce rfl).keeps hat.known hadd sid se p hs

theorem regenerate_next {nonce : Nat} (hw : w.Good) (hp : (Phase.regenerate c uid row nonce).Good w) :
    Next w (.regenerate c uid row nonce) { w with sessions := w.sessions.erase c.sid } (.save c uid row nonce) := by
  have hk : Keeps (some c.sid) (some c) w { w with sessions := w.sessions.erase c.sid } := .erase rfl
  have hat := hp.callback c rfl
  refine ⟨hw.of_uses hw.sessions.erase (hw.identities.of_eq rfl rfl) rfl le_rfl, ?_, hk, fun _ h => h, fun _ h => .inl h⟩
  refine ⟨fun _ hr => (by cases hr), fun d hd => ?_, fun d hd => ?_, fun d hd => (by cases hd), hp.verified, fun d _ _ _ heq => ?_⟩
  · exact Option.some.inj hd ▸ hat.keeps hk
  · exact Option.some.inj hd ▸ hp.active c rfl
  · obtain ⟨rfl, -⟩ := Phase.save.inj heq
    intro sid se p hs hpending hstate
    dsimp only at hs
    rw [Table.lookup_erase'] at hs
    split at hs
    next => cases hs
    next hne => exact hne (hat.own sid se p hs hpending hstate)

/-- `delete req.session.oidcPending` -/
theorem clear_next (hw : w.Good) (hc : ∀ c, p.callback = some c → c.At w ∧ c.sid = sid) : Next w p (w.clear sid) .done := by
  have hk : Keeps none none w (w.clear sid) := .modify (fun _ => rfl) fun _ _ h => by cases h
  refine .done (hw.of_uses (hw.sessions.modify (fun _ => rfl) fun _ _ h => by cases h) (hw.identities.of_eq rfl rfl) rfl le_rfl) hk.mono ?_
  intro c hcallback k se q hs hq heq
  obtain ⟨hat, rfl⟩ := hc c hcallback
  have hk : k = c.sid := (hat.keeps hk).own k se q hs hq heq
  subst hk
  rw [World.clear, Table.lookup_modify_self] at hs
  obtain ⟨_, -, rfl⟩ := Option.map_eq_some_iff.mp hs
  cases hq

theorem Next.starts (hw : w.Good) (hp : p.Good w) (hr : p.start? = some r) (hr' : p'.start? = some r) (hc : p'.callback = none)
    (hverified : p'.Verified) : Next w p w p' := by
  have hpc : p.callback = none := by
    cases p <;> first | rfl | cases hr
  refine .read hw ⟨fun r' h => ?_, fun c h => ?_, fun c h => ?_, fun c h => ?_, hverified, fun c uid row nonce h => ?_⟩ (hc.trans hpc.symm)
  · exact Option.some.inj (hr'.symm.trans h) ▸ hp.start r hr
  · simp [hc] at h
  · simp [Phase.callback_of_active h] at hc
  · simp [Phase.callback_of_linking h] at hc
  · subst h
    cases hc

theorem startSave_next {id : ProviderId} {time : Nat} (hw : w.Good) (hp : (Phase.startSave r id time).Good w) :
    Next w (.startSave r id time) (w.savePending r id time) .done := by
  obtain ⟨hat, hnone⟩ := hp.start r rfl
  have hk : Keeps none none w (w.savePending r id time) := savePending_keeps
  refine .done (hw.of_uses (savePending_sessions hw.sessions hat hnone) ?_ ?_ hk.nextState) hk.mono fun _ h => by cases h
  · unfold World.savePending
    dsimp only
    split
    · exact hw.identities.of_eq rfl rfl
    · split <;> exact hw.identities.of_eq rfl rfl
  · unfold World.savePending
    dsimp only
    split
    · rfl
    · split <;> rfl

theorem run_next (hw : w.Good) (hp : p.Good w) (hread : ∀ row, p.reads w = some row → row.disabled = false)
    (h : w.run toLowerCase p answer = some (w', p')) : Next w p w' p' := by
  unfold World.run at h
  split at h
  case h_1 r slug =>
    cases h
    split
    · exact .done hw .refl fun _ h => by cases h
    · exact .starts hw hp rfl rfl rfl trivial
  case h_2 r id =>
    cases h
    exact .starts hw hp rfl rfl rfl trivial
  case h_3 =>
    cases h
    exact .done hw .refl fun _ h => by cases h
  case h_4 r id time =>
    cases h
    exact startSave_next hw hp
  case h_5 c =>
    cases h
    split
    · exact .finish hw hp rfl
    · exact .go hw hp rfl rfl rfl (.inr rfl) trivial fun _ _ _ _ h => by cases h
  case h_6 c provider =>
    cases h
    exact .go hw hp rfl rfl rfl (.inr rfl) trivial fun _ _ _ _ h => by cases h
  case h_7 c _ | h_8 c _ =>
    cases h
    exact .finish hw hp rfl
  case h_9 c provider payload =>
    split at h
    · cases h
    · cases h
      exact (verified_next hw hp).rows (hw.identities.of_eq rfl rfl) rfl rfl rfl rfl rfl
  case h_10 c uid payload =>
    split at h
    · cases h
      exact .finish hw hp rfl
    next hnone =>
      cases h
      rw [Bool.or_eq_true, not_or] at hnone
      exact link_next hw hp (by simpa using hnone.1)
  case h_11 c provider payload =>
    cases h
    split
    · exact .go hw hp rfl rfl rfl (.inl rfl) hp.verified fun _ _ _ _ h => by cases h
    · exact provisioning_next hw hp
  case h_12 c uid payload =>
    cases h
    split
    · exact .finish hw hp rfl
    next row hrow => exact .go hw hp rfl rfl rfl (.inl rfl) ⟨hp.verified, hread row hrow⟩ fun _ _ _ _ h => by cases h
  case h_13 c username payload =>
    cases h
    split
    · exact .finish hw hp rfl
    next uid row hrow =>
      exact .go hw hp rfl rfl rfl (.inl rfl) ⟨hp.verified, hread row (congrArg (Option.map _) hrow)⟩ fun _ _ _ _ h => by cases h
  case h_14 c username payload =>
    cases h
    split
    · exact .go hw hp rfl rfl rfl (.inl rfl) hp.verified fun _ _ _ _ h => by cases h
    next uid row hrow =>
      exact .go hw hp rfl rfl rfl (.inl rfl) ⟨hp.verified, hread row (congrArg (Option.map _) hrow)⟩ fun _ _ _ _ h => by cases h
  case h_15 c username payload =>
    split at h
    · cases h
      exact .finish hw hp rfl
    · cases h
      have hgo : Next w (.createUser c username payload) w (.regenerate c w.nextUser { username } payload.nonce) :=
        .go hw hp rfl rfl rfl (.inl rfl) ⟨hp.verified, rfl⟩ fun _ _ _ _ h => by cases h
      have hrows : Next w (.createUser c username payload)
          { w with users := w.users.insert w.nextUser { username }, nextUser := w.nextUser + 1 }
          (.regenerate c w.nextUser { username } payload.nonce) := hgo.rows (hw.identities.of_eq rfl rfl) rfl rfl rfl rfl rfl
      exact hrows.upsert
  case h_16 c uid row payload =>
    split at h
    · cases h
      have hgo : Next w (.insertIdentity c uid row payload) w (.regenerate c uid row payload.nonce) :=
        .go hw hp rfl rfl rfl (.inl rfl) hp.verified fun _ _ _ _ h => by cases h
      exact hgo.upsert
    · cases h
      exact .finish hw hp rfl
  case h_17 c uid row nonce =>
    cases h
    exact regenerate_next hw hp
  case h_18 c uid row nonce =>
    cases h
    exact save_next hw hp
  case h_19 c =>
    cases h
    exact clear_next hw fun d hd => ⟨hp.callback d hd, Option.some.inj hd ▸ rfl⟩
  case h_20 sid =>
    cases h
    exact clear_next hw fun _ h => by cases h
  case h_21 uid id =>
    cases h
    split <;> exact .read hw (.trivial rfl rfl trivial) rfl
  case h_22 uid id =>
    cases h
    split <;> exact .read hw (.trivial rfl rfl trivial) rfl
  case h_23 uid id count =>
    cases h
    have hdone : Next w (.unlinkDelete uid id count) w .done := .done hw .refl fun _ h => by cases h
    exact hdone.rows (hw.identities.delete (f := fun k i => decide (k = id) && decide (i.user_id = uid)) rfl rfl) rfl rfl rfl rfl rfl
  case h_24 => cases h

def Change.ends : Change → Option Sid
  | .endSession sid => some sid
  | .signIn sid _ => sid
  | _ => none

theorem change_keeps {c : Change} : Keeps c.ends none w (w.change c) := by
  cases c with
  | endSession sid => exact .erase rfl
  | signIn sid uid =>
    cases sid with
    | none => exact Keeps.refl.addSession fun p hp => by cases hp
    | some sid =>
      have herase : Keeps (some sid) none w { w with sessions := w.sessions.erase sid } := .erase rfl
      exact herase.addSession fun p hp => by cases hp
  | lock sid locked => exact .modify (fun _ => rfl) fun _ _ h => .inl h
  | _ => exact .of_sessions rfl rfl rfl fun _ hx => .inl hx

theorem change_good {c : Change} (hw : w.Good) : (w.change c).Good := by
  have hrows {w' : World} (hi : w'.Identities) (hs : w'.sessions = w.sessions ∧ w'.nextSid = w.nextSid ∧ w'.started = w.started ∧
      w'.nextState = w.nextState ∧ w'.uses = w.uses) : w'.Good := hw.of_rows hi hs.1 hs.2.1 hs.2.2.1 hs.2.2.2.1 hs.2.2.2.2
  cases c with
  | endSession sid => exact hw.of_uses hw.sessions.erase (hw.identities.of_eq rfl rfl) rfl le_rfl
  | signIn sid uid =>
    cases sid with
    | none => exact hw.of_uses (hw.sessions.addSession rfl) (hw.identities.of_eq rfl rfl) rfl le_rfl
    | some sid => exact hw.of_uses (hw.sessions.erase.addSession rfl) (hw.identities.of_eq rfl rfl) rfl le_rfl
  | lock sid locked => exact hw.of_uses (hw.sessions.modify (fun _ => rfl) fun _ _ h => h) (hw.identities.of_eq rfl rfl) rfl le_rfl
  | deleteUser uid =>
    exact hrows (hw.identities.delete (f := fun _ i => decide (i.user_id = uid)) rfl rfl) ⟨rfl, rfl, rfl, rfl, rfl⟩
  | deleteProvider id =>
    exact hrows (hw.identities.delete (f := fun _ i => decide (i.provider_id = id)) rfl rfl) ⟨rfl, rfl, rfl, rfl, rfl⟩
  | _ => exact hrows (hw.identities.of_eq rfl rfl) ⟨rfl, rfl, rfl, rfl, rfl⟩

end MailExpert.Oidc
