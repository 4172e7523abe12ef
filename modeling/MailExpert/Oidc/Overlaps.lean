import MailExpert.Oidc.Steps

/-!
# Flows that do not overlap

The runs in which callbacks of one flow do not overlap, no disabled user is read, no session ends under a link, and an unlink deletes
while its count is still right (`steady`), and their invariant (`Inv`).
-/

namespace MailExpert.Oidc

variable {toLowerCase : String → String} {w w' : World} {s s' t : State} {sid : Sid} {se : Session} {p p' q : Phase} {c d : Callback}
  {answer : Answer} {uid : UserId} {user : User} {i j : Nat} {l : Label} {id : IdentityId}

/-- The request may still link an identity from the session. -/
def Phase.links (p : Phase) (sid : Sid) : Bool := p.linking.any fun c => c.pending.action = .link && c.sid = sid

/-- The flow of the callback is not under way. -/
def State.idle (s : State) (c : Callback) : Bool := s.requests.all fun p => p.callback.all (·.pending.state ≠ c.pending.state)

def State.unlinked (s : State) (sid : Sid) : Bool := s.requests.all (!·.links sid)

def Phase.counted (w : World) : Phase → Bool
  | .unlinkDelete uid _ (some n) => n ≤ w.countIdentities uid
  | _ => true

/-- A callback takes a flow that no other callback has under way, and not in the millisecond in which the flow expires; the users read
are not disabled; a session ends only when no link from it is under way; an unlink deletes while what it counted is there. -/
def steady (s : State) : Label → Bool
  | .callback sid q => (s.world.callback sid q).callback.all fun c => s.world.now ≠ c.pending.expiresAt && s.idle c
  | .change c => c.ends.all s.unlinked
  | .run i _ =>
    match s.requests[i]? with
    | none => true
    | some p => (p.reads s.world).all (!·.disabled) && p.ends.all s.unlinked && p.counted s.world
  | _ => true

structure Inv (s : State) : Prop where
  world : s.world.Good
  requests : ∀ p ∈ s.requests, p.Good s.world
  alone : ∀ (i j : Nat) p q c d, s.requests[i]? = some p → s.requests[j]? = some q → p.callback = some c → q.callback = some d →
    c.pending.state = d.pending.state → i = j
  /-- A flow that was used and is still stored is about to be cleared. -/
  clearing : ∀ x ∈ s.world.uses, ∀ sid se p, s.world.sessions.lookup sid = some se → se.oidcPending = some p →
    p.state = x.callback.pending.state → ∃ c, .finish c ∈ s.requests ∧ c.pending.state = p.state

theorem Inv.init (hw : s.world.Initial) (hs : s.requests = []) : Inv s where
  world := {
    sessions := {
      known := fun k se h => by simp [hw.sessions] at h
      pending := fun k se p h => by simp [hw.sessions] at h
      own := fun k k' se se' p p' h => by simp [hw.sessions] at h }
    identities := ⟨fun k i h => by simp [hw.identities] at h, fun k k' i i' h => by simp [hw.identities] at h⟩
    used := fun x h => by simp [hw.uses] at h
    sound := fun x h => by simp [hw.uses] at h
    once := by simp [hw.uses] }
  requests p hp := by simp [hs] at hp
  alone i j p q c d hp := by simp [hs] at hp
  clearing x hx := by simp [hw.uses] at hx

theorem Phase.active_or_finish (h : p.callback = some c) : p.active = some c ∨ p = .finish c := by
  cases p with
  | finish d => exact .inr (congrArg _ (Option.some.inj h))
  | _ => exact .inl h

theorem unlinked_ne {p : Phase} (h : s.unlinked sid = true) (hp : p ∈ s.requests) (hc : p.linking = some c) (hlink : c.pending.action = .link) :
    sid ≠ c.sid := by
  rintro rfl
  have hnot := List.all_eq_true.mp h p hp
  simp [Phase.links, hc, hlink] at hnot

theorem Inv.run (hs : Inv s) (hi : s.requests[i]? = some p) (h : Next s.world p w' p') (hends : p.ends.all s.unlinked = true) :
    Inv { world := w', requests := s.requests.set i p' } where
  world := h.good
  requests q hq := by
    obtain ⟨j, hj⟩ := List.mem_iff_getElem?.mp hq
    rcases (Agents.getElem?_set_some hi).mp hj with ⟨-, rfl⟩ | ⟨hij, hj⟩
    · exact h.request
    · refine (hs.requests q (List.mem_of_getElem? hj)).keeps h.keeps (fun c d hc hd heq => ?_) fun c hc hlink hsid => ?_
      · exact hij (hs.alone i j p q d c hi hj hd (Phase.callback_of_active hc) heq)
      · exact unlinked_ne ((Option.all_eq_true _ _).mp hends c.sid hsid) (List.mem_of_getElem? hj) hc hlink rfl
  alone a b q q' c d ha hb hc hd heq := by
    rcases (Agents.getElem?_set_some hi).mp ha with ⟨rfl, rfl⟩ | ⟨-, hja⟩ <;>
      rcases (Agents.getElem?_set_some hi).mp hb with ⟨rfl, rfl⟩ | ⟨-, hjb⟩
    · rfl
    · exact hs.alone i b p q' c d hi hjb (h.callback c hc) hd heq
    · exact hs.alone a i q p c d hja hi hc (h.callback d hd) heq
    · exact hs.alone a b q q' c d hja hjb hc hd heq
  clearing x hx sid se flow hlookup hflow hstate := by
    have hmem : p' ∈ s.requests.set i p' := List.mem_of_getElem? ((Agents.getElem?_set_some hi).mpr (.inl ⟨rfl, rfl⟩))
    -- the step of the callback that used the flow, or is to clear it
    have hown (c : Callback) (hc : p.callback = some c) (hstate : flow.state = c.pending.state)
        (heq : x.callback.pending.state = c.pending.state) : ∃ c, .finish c ∈ s.requests.set i p' ∧ c.pending.state = flow.state := by
      rcases h.left c hc with hc' | hgone
      · rcases Phase.active_or_finish hc' with hactive | rfl
        · exact absurd heq (h.request.active c hactive x hx)
        · exact ⟨c, hmem, hstate.symm⟩
      · exact absurd hstate (hgone sid se flow hlookup hflow)
    rcases h.keeps.uses x hx with hold | hnew
    · rcases h.keeps.stored sid se flow hlookup hflow with ⟨se₀, hse, hpending⟩ | hle
      · obtain ⟨c, hfinish, hc⟩ := hs.clearing x hold sid se₀ flow hse hpending hstate
        obtain ⟨j, hj⟩ := List.mem_iff_getElem?.mp hfinish
        by_cases hij : i = j
        · subst hij
          rw [hi] at hj
          exact hown c (by rw [Option.some.inj hj]; rfl) hc.symm (hstate.symm.trans hc.symm)
        · exact ⟨c, List.mem_of_getElem? ((Agents.getElem?_set_some hi).mpr (.inr ⟨hij, hj⟩)), hc⟩
      · exact absurd (hs.world.used x hold) (not_lt.mpr (hstate ▸ hle))
    · exact hown x.callback hnew hstate rfl

/-- What comes from elsewhere leaves the requests. -/
theorem Inv.change {c : Change} (hs : Inv s) (hends : c.ends.all s.unlinked = true) : Inv { s with world := s.world.change c } where
  world := change_good hs.world
  requests p hp := by
    refine (hs.requests p hp).keeps change_keeps (fun _ _ _ h => by cases h) fun d hd hlink hsid => ?_
    exact unlinked_ne ((Option.all_eq_true _ _).mp hends d.sid hsid) hp hd hlink rfl
  alone := hs.alone
  clearing x hx sid se p hlookup hp heq := by
    rcases change_keeps.uses x hx with hx | hx
    · rcases change_keeps.stored sid se p hlookup hp with ⟨se₀, hse, hpending⟩ | hle
      · exact hs.clearing x hx sid se₀ p hse hpending heq
      · exact absurd (hs.world.used x hx) (not_lt.mpr (heq ▸ hle))
    · cases hx

theorem Inv.receive (hs : Inv s) (hp : p.Good s.world)
    (halone : ∀ c, p.callback = some c → ∀ q ∈ s.requests, ∀ d, q.callback = some d → d.pending.state ≠ c.pending.state) :
    Inv { s with requests := s.requests ++ [p] } where
  world := hs.world
  requests q hq := by
    rcases List.mem_append.mp hq with hq | hq
    · exact hs.requests q hq
    · exact List.mem_singleton.mp hq ▸ hp
  alone i j q q' c d hi hj hc hd heq := by
    rcases Agents.getElem?_append_some.mp hi with hqi | ⟨rfl, rfl⟩ <;> rcases Agents.getElem?_append_some.mp hj with hqj | ⟨rfl, rfl⟩
    · exact hs.alone i j q q' c d hqi hqj hc hd heq
    · exact absurd heq (halone d hd q (List.mem_of_getElem? hqi) c hc)
    · exact absurd heq.symm (halone c hc q' (List.mem_of_getElem? hqj) d hd)
    · rfl
  clearing x hx sid se flow hlookup hflow heq := by
    obtain ⟨c, hmem, hc⟩ := hs.clearing x hx sid se flow hlookup hflow heq
    exact ⟨c, List.mem_append_left _ hmem, hc⟩

theorem start_good {sid : Option Sid} {action : Action} {slug : String} (hw : w.Good) : (w.start sid action slug).Good w := by
  unfold World.start
  dsimp only
  split
  · exact .trivial rfl rfl trivial
  split
  · exact .trivial rfl rfl trivial
  refine ⟨fun r hr => ?_, fun _ h => (by cases h), fun _ h => (by cases h), fun _ h => (by cases h), trivial, fun _ _ _ _ h => (by cases h)⟩
  obtain rfl := Option.some.inj hr
  refine ⟨⟨fun k hk => ?_, fun k se hk hs => ?_⟩, fun hnone => ?_⟩
  · obtain ⟨-, hsome⟩ := Option.filter_eq_some_iff.mp hk
    obtain ⟨se, hse⟩ := Option.isSome_iff_exists.mp hsome
    exact hw.sessions.known k se hse
  · obtain ⟨rfl, -⟩ := Option.filter_eq_some_iff.mp hk
    simp [hs]
  · dsimp only at hnone ⊢
    cases sid with
    | none => rfl
    | some k =>
      have hgone : w.sessions.lookup k = none := by simpa [Option.filter_some] using hnone
      simp [hgone]

theorem idle_iff : s.idle c = true ↔ ∀ q ∈ s.requests, ∀ d, q.callback = some d → d.pending.state ≠ c.pending.state := by
  simp only [State.idle, List.all_eq_true, Option.all_eq_true, decide_eq_true_eq, ne_eq]

theorem start_callback {sid : Option Sid} {action : Action} {slug : String} : (w.start sid action slug).callback = none := by
  unfold World.start
  dsimp only
  split
  · rfl
  · split <;> rfl

/-- A callback takes the flow that its session started last. -/
theorem take_good {flow : Pending} (hs : Inv s) (hse : s.world.sessions.lookup sid = some se) (hflow : se.oidcPending = some flow)
    (hc : c.sid = sid ∧ c.pending = flow ∧ c.time = s.world.now ∧ c.state = flow.state ∧ c.last = s.world.started.find? (·.sid = sid))
    (hlt : s.world.now < flow.expiresAt) (hidle : s.idle c = true) : (Phase.provider c).Good s.world := by
  obtain ⟨rfl, rfl, htime, hstate, hlast⟩ := hc
  obtain ⟨hknown, st, hfind, hpending, hexpires, huser, hlink⟩ := hs.world.sessions.pending c.sid se c.pending hse hflow
  have hof : c.Of st := {
    last := hlast.trans hfind
    sid := by simpa using List.find?_some hfind
    pending := hpending
    time := htime ▸ hexpires ▸ hlt
    state := hpending ▸ hstate
    link := hlink }
  refine ⟨fun _ h => (by cases h), fun d hd => ?_, fun d hd => ?_, fun d hd => ?_, trivial, fun _ _ _ _ h => (by cases h)⟩
  · obtain rfl := Option.some.inj hd
    exact ⟨⟨st, hof⟩, hknown, fun k se' p hk hp heq => hs.world.sessions.own k _ se' se p _ hk hse hp hflow heq⟩
  · obtain rfl := Option.some.inj hd
    intro x hx heq
    obtain ⟨d, hfinish, hd⟩ := hs.clearing x hx _ se _ hse hflow heq.symm
    exact idle_iff.mp hidle _ hfinish d rfl hd
  · obtain rfl := Option.some.inj hd
    intro _
    refine ⟨se, hse, hs.world.sessions.known _ se hse, fun st' hst' => ?_⟩
    rw [hof.last] at hst'
    exact Option.some.inj hst' ▸ huser

theorem callback_good {q : Query} (hs : Inv s)
    (h : ∀ c, (s.world.callback sid q).callback = some c → s.world.now ≠ c.pending.expiresAt ∧ s.idle c = true) :
    (s.world.callback sid q).Good s.world := by
  have hnone {p : Phase} (hstart : p.start? = none) (hcallback : p.callback = none) (hverified : p.Verified) :
      (∀ c, p.callback = some c → s.world.now ≠ c.pending.expiresAt ∧ s.idle c = true) → p.Good s.world :=
    fun _ => .trivial hstart hcallback hverified
  revert h
  unfold World.callback
  split
  · exact hnone rfl rfl trivial
  next se hse =>
  split
  · exact hnone rfl rfl trivial
  next flow hflow =>
  split
  · exact hnone rfl rfl trivial
  split
  · exact hnone rfl rfl trivial
  split
  · exact hnone rfl rfl trivial
  next hexp =>
  split
  · split
    · exact hnone rfl rfl trivial
    next heq =>
      intro h
      obtain ⟨hne, hidle⟩ := h _ rfl
      exact take_good hs hse hflow ⟨rfl, rfl, rfl, not_not.mp heq, rfl⟩ (lt_of_le_of_ne (not_lt.mp hexp) hne) hidle
  · exact hnone rfl rfl trivial

theorem unlink_good : (w.unlink sid id).Good w := by
  unfold World.unlink
  split <;> exact .trivial rfl rfl trivial

theorem unlink_callback : (w.unlink sid id).callback = none := by
  unfold World.unlink
  split <;> rfl

theorem inv_invariant : (system toLowerCase).Invariant (fun s l => steady s l = true) Inv where
  init h := .init h.1 h.2
  step {s l s'} hs hsteady hstep := by
    cases l with
    | change c =>
      cases hstep
      exact hs.change hsteady
    | start sid action slug =>
      cases hstep
      refine hs.receive (start_good hs.world) fun c hc => ?_
      rw [start_callback] at hc
      cases hc
    | callback sid q =>
      cases hstep
      have h : ∀ c, (s.world.callback sid q).callback = some c → s.world.now ≠ c.pending.expiresAt ∧ s.idle c = true := by
        intro c hc
        simpa using (Option.all_eq_true _ _).mp hsteady c hc
      exact hs.receive (callback_good hs h) fun c hc => idle_iff.mp (h c hc).2
    | unlink sid id =>
      cases hstep
      refine hs.receive unlink_good fun c hc => ?_
      rw [unlink_callback] at hc
      cases hc
    | run i answer =>
      change (match s.requests[i]? with | none => none | some p => _) = _ at hstep
      split at hstep
      · cases hstep
      next p hi =>
        obtain ⟨⟨w', p'⟩, hrun, rfl⟩ := Option.map_eq_some_iff.mp hstep
        rw [steady, hi] at hsteady
        simp only [Bool.and_eq_true] at hsteady
        obtain ⟨⟨hreads, hends⟩, -⟩ := hsteady
        refine hs.run hi (run_next hs.world (hs.requests p (List.mem_of_getElem? hi)) (fun row hrow => ?_) hrun) hends
        simpa using (Option.all_eq_true _ _).mp hreads row hrow

end MailExpert.Oidc
