import MailExpert.Codex.Granted

/-!
# The credential under its lock

A refresh that goes on holds the lock of the credential that it read (`Locked`), so what it writes came from the refresh token stored
then. With the invariant of the flows this gives the whole of `sign_in_kept`.
-/

namespace MailExpert.Codex

variable {s s' t : State} {id k : FlowId} {owner : Owner} {f : Flow} {p p' q : Poll} {r r' : Refresh} {answer : Answer} {l : Label}
  {c : Code} {tokens : Tokens} {i j : Nat} {cred new : Credential}

def Refresh.locks : Refresh → Bool
  | .fetch _ | .save _ _ => true
  | _ => false

/-- What refresh `i` relies on. -/
def Refresh.Sound (s : State) (i : Nat) : Refresh → Prop
  | .fetch c => s.lock = some i ∧ s.credential = some c
  | .save c new => s.lock = some i ∧ s.credential = some c ∧ ((c, new) ∈ s.redeemed ∨ ∃ code, new = c.reconnect code)
  | _ => True

structure Locked (s : State) : Prop where
  sound : ∀ (i : Nat) r, s.refreshes[i]? = some r → r.Sound s i
  held : ∀ (i : Nat), s.lock = some i → ∃ r, s.refreshes[i]? = some r ∧ r.locks = true

theorem Refresh.Sound.lock (h : r.Sound s i) (hlocks : r.locks = true) : s.lock = some i := by
  cases r with
  | fetch | save => exact h.1
  | _ => cases hlocks

theorem Refresh.Sound.of_not (h : r.locks = false) : r.Sound s i := by
  cases r with
  | fetch | save => cases h
  | _ => trivial

theorem Refresh.Sound.keep (h : r.Sound s i) (hlock : s'.lock = s.lock) (hcred : s.lock ≠ none → s'.credential = s.credential)
    (hredeemed : ∀ x ∈ s.redeemed, x ∈ s'.redeemed) : r.Sound s' i := by
  cases r with
  | fetch c => exact ⟨hlock ▸ h.1, (hcred (by simp [h.1])).trans h.2⟩
  | save c new => exact ⟨hlock ▸ h.1, (hcred (by simp [h.1])).trans h.2.1, h.2.2.imp_left (hredeemed _)⟩
  | _ => trivial

/-- A step that leaves the refreshes and the lock, and the credential while it is locked. -/
theorem Locked.keep (h : Locked s) (hlock : s'.lock = s.lock) (hcred : s.lock ≠ none → s'.credential = s.credential)
    (hredeemed : ∀ x ∈ s.redeemed, x ∈ s'.redeemed) (hrefreshes : s'.refreshes = s.refreshes) : Locked s' where
  sound i r hr := (h.sound i r (hrefreshes ▸ hr)).keep hlock hcred hredeemed
  held i hi := hrefreshes ▸ h.held i (hlock ▸ hi)

inductive RefreshMove (s : State) (i : Nat) : Refresh → State → Refresh → Prop
  | aside (r r' : Refresh) (h : r.locks = false) (h' : r'.locks = false) : RefreshMove s i r s r'
  | locked (force : Bool) (c : Credential) (r' : Refresh) (hlock : s.lock = none) (hc : s.credential = some c)
    (hr : r' = .fetch c ∨ ∃ code, r' = .save c (c.reconnect code)) : RefreshMove s i (.lock force) { s with lock := some i } r'
  | refused (c : Credential) (code : String) : RefreshMove s i (.fetch c) s (.save c (c.reconnect code))
  | failed (c : Credential) : RefreshMove s i (.fetch c) { s with lock := none } .done
  | refreshed (c new : Credential) : RefreshMove s i (.fetch c) { s with redeemed := (c, new) :: s.redeemed } (.save c new)
  | saved (c new : Credential) : RefreshMove s i (.save c new) { s with credential := some new, lock := none } .done

theorem refresh_move (h : s.refresh i r answer = some (s', r')) : RefreshMove s i r s' r' := by
  unfold State.refresh at h
  split at h
  · cases h
    refine .aside _ _ rfl ?_
    split
    · rfl
    · split <;> rfl
  · split at h
    · cases h
    next hlock =>
    split at h
    · cases h
      exact .aside _ _ rfl rfl
    next c hc =>
    split at h
    · cases h
      exact .aside _ _ rfl rfl
    · cases h
      refine .locked _ c _ (by simpa using hlock) hc ?_
      split
      · exact .inl rfl
      · exact .inr ⟨_, rfl⟩
  · split at h
    · cases h
      exact .refused ..
    · cases h
      exact .failed _
  · cases h
    exact .refreshed ..
  · cases h
    exact .saved ..
  · cases h

theorem RefreshMove.refreshes (h : RefreshMove s i r s' r') : s'.refreshes = s.refreshes := by cases h <;> rfl

theorem RefreshMove.sound (h : RefreshMove s i r s' r') (hr : r.Sound s i) : r'.Sound s' i := by
  cases h with
  | aside _ _ _ hnot => exact .of_not hnot
  | locked force c r' hlock hc hcase =>
    rcases hcase with rfl | ⟨code, rfl⟩
    · exact ⟨rfl, hc⟩
    · exact ⟨rfl, hc, .inr ⟨code, rfl⟩⟩
  | refused c code => exact ⟨hr.1, hr.2, .inr ⟨code, rfl⟩⟩
  | refreshed c new => exact ⟨hr.1, hr.2, .inl List.mem_cons_self⟩
  | failed | saved => trivial

theorem RefreshMove.others {q : Refresh} (h : RefreshMove s i r s' r') (hr : r.Sound s i) (hij : i ≠ j) (hq : q.Sound s j) :
    q.Sound s' j := by
  cases hlocks : q.locks with
  | false => exact .of_not hlocks
  | true =>
    have hlock := hq.lock hlocks
    have hother : r.locks ≠ true := fun hrl => hij (Option.some.inj ((hr.lock hrl).symm.trans hlock))
    cases h with
    | aside => exact hq
    | locked force c r' hnone =>
      rw [hnone] at hlock
      cases hlock
    | _ => exact absurd rfl hother

/-- Whoever holds the lock after the step of a refresh. -/
theorem RefreshMove.held (h : RefreshMove s i r s' r') (hr : r.Sound s i) (hj : s'.lock = some j) :
    j = i ∧ r'.locks = true ∨ s.lock = some j ∧ r.locks = false := by
  cases h with
  | aside _ _ hnot => exact .inr ⟨hj, hnot⟩
  | locked force c r' hlock hc hcase =>
    refine .inl ⟨(Option.some.inj hj).symm, ?_⟩
    rcases hcase with rfl | ⟨code, rfl⟩ <;> rfl
  | refused | refreshed => exact .inl ⟨Option.some.inj (hj.symm.trans hr.1), rfl⟩
  | failed | saved => cases hj

theorem Locked.refresh (hs : Locked s) (hr : s.refreshes[i]? = some r) (hm : RefreshMove s i r s' r') :
    Locked { s' with refreshes := s'.refreshes.set i r' } where
  sound j q hq := by
    dsimp only at hq
    rw [hm.refreshes] at hq
    rcases (Agents.getElem?_set_some hr).mp hq with ⟨rfl, rfl⟩ | ⟨hij, hj⟩
    · exact (hm.sound (hs.sound i r hr)).keep rfl (fun _ => rfl) fun _ h => h
    · exact (hm.others (hs.sound i r hr) hij (hs.sound j q hj)).keep rfl (fun _ => rfl) fun _ h => h
  held j hj := by
    dsimp only at hj ⊢
    rw [hm.refreshes]
    rcases hm.held (hs.sound i r hr) hj with ⟨rfl, hlocks⟩ | ⟨hlock, hnot⟩
    · exact ⟨r', (Agents.getElem?_set_some hr).mpr (.inl ⟨rfl, rfl⟩), hlocks⟩
    · obtain ⟨q, hq, hlocks⟩ := hs.held j hlock
      refine ⟨q, (Agents.getElem?_set_some hr).mpr (.inr ⟨?_, hq⟩), hlocks⟩
      rintro rfl
      rw [hr] at hq
      cases hq
      rw [hnot] at hlocks
      cases hlocks

theorem Move.locked (h : Move s p s' p') : s'.lock = s.lock ∧ (s.lock ≠ none → s'.credential = s.credential) ∧ s'.redeemed = s.redeemed := by
  cases h with
  | completed id tokens f hf hstate hlock => exact ⟨rfl, fun h => absurd hlock h, rfl⟩
  | _ => exact ⟨rfl, fun _ => rfl, rfl⟩

theorem locked_invariant : system.Invariant TransitionSystem.anyStep Locked where
  init h := ⟨fun i r hr => by simp [h.refreshes] at hr, fun i hi => by simp [h.lock] at hi⟩
  step {s l s'} hs _ hstep := by
    have hkept (h : s'.lock = s.lock) (hcred : s.lock ≠ none → s'.credential = s.credential) (hredeemed : s'.redeemed = s.redeemed)
        (hrefreshes : s'.refreshes = s.refreshes) : Locked s' :=
      hs.keep h hcred (fun x hx => hredeemed ▸ hx) hrefreshes
    cases l with
    | tick | createFlow | cancelFlow | poll =>
      cases hstep
      exact hkept rfl (fun _ => rfl) rfl rfl
    | disconnect =>
      change (if s.lock.isSome then none else _) = _ at hstep
      split at hstep
      · cases hstep
      next hlock =>
        cases hstep
        exact hkept rfl (fun h => absurd (by simpa using hlock) h) rfl rfl
    | goOn i answer =>
      change step s (.goOn i _) = _ at hstep
      rw [step] at hstep
      split at hstep
      · cases hstep
      next p hp =>
        obtain ⟨⟨s₁, p'⟩, hpoll, rfl⟩ := Option.map_eq_some_iff.mp hstep
        obtain ⟨hlock, hcred, hredeemed⟩ := (poll_move hpoll).locked
        exact hkept hlock hcred hredeemed (poll_move hpoll).refreshes
    | getAccess force =>
      cases hstep
      refine ⟨fun i r hr => ?_, fun i hi => ?_⟩
      · rcases Agents.getElem?_append_some.mp hr with hr | ⟨-, rfl⟩
        · exact (hs.sound i r hr).keep rfl (fun _ => rfl) fun _ h => h
        · trivial
      · obtain ⟨q, hq, hlocks⟩ := hs.held i hi
        exact ⟨q, Agents.getElem?_append_some.mpr (.inl hq), hlocks⟩
    | refresh i answer =>
      change step s (.refresh i _) = _ at hstep
      rw [step] at hstep
      split at hstep
      · cases hstep
      next r hr =>
        obtain ⟨⟨s₁, r'⟩, hrefresh, rfl⟩ := Option.map_eq_some_iff.mp hstep
        exact hs.refresh hr (refresh_move hrefresh)

/-! ## What a run keeps -/

theorem step_over (hstep : step s l = some s') (hk : k < s.nextFlow) (hsettled : Settled (s.flows.lookup k)) :
    k < s'.nextFlow ∧ (s'.flows.lookup k = s.flows.lookup k ∨ s'.flows.lookup k = none) ∧
      ∀ tokens, (k, tokens) ∈ s'.stored → (k, tokens) ∈ s.stored := by
  rcases step_cases hstep with ha | ⟨i, answer, p, p', s₁, rfl, hp, hpoll, rfl⟩
  · exact ⟨hk.trans_le ha.nextFlow, (ha.leaves k hk).over hsettled, fun tokens ht => ha.stored ▸ ht⟩
  · have hm := poll_move hpoll
    refine ⟨hm.nextFlow ▸ hk, hm.over hsettled, fun tokens ht => ?_⟩
    rcases hm.stored with heq | ⟨k', t, -, heq, ⟨f, hf, hlive⟩, -⟩
    · exact heq ▸ ht
    · rcases List.mem_cons.mp (heq ▸ ht) with heq' | ht
      · cases heq'
        rw [hsettled f hf] at hlive
        cases hlive
      · exact ht

/-- A flow that is over is neither changed nor completed again. -/
theorem run_over (hrun : system.Run exclusive s t) (hk : k < s.nextFlow) (hsettled : Settled (s.flows.lookup k)) :
    k < t.nextFlow ∧ (t.flows.lookup k = s.flows.lookup k ∨ t.flows.lookup k = none) ∧
      ∀ tokens, (k, tokens) ∈ t.stored → (k, tokens) ∈ s.stored := by
  induction hrun with
  | refl => exact ⟨hk, .inl rfl, fun _ h => h⟩
  | tail hrun _ hstep ih =>
    obtain ⟨hk', hflow, hstored⟩ := ih
    have hsettled' := hsettled.over fun _ => hflow
    obtain ⟨hk'', hflow', hstored'⟩ := step_over hstep hk' hsettled'
    refine ⟨hk'', ?_, fun tokens ht => hstored tokens (hstored' tokens ht)⟩
    rcases hflow' with heq | hnone
    · exact heq ▸ hflow
    · exact .inr hnone

/-- What holds of the sign-ins and the credential at any time. -/
structure Kept (s : State) : Prop where
  /-- A flow stores a credential at most once. -/
  once : (s.stored.map Prod.fst).Nodup
  /-- One exchange of a code is under way at most. -/
  one : ∀ (i j : Nat) k k' c, s.polls[i]? = some (.exchange k c) → s.polls[j]? = some (.exchange k' c) → i = j
  /-- Tokens that were received are stored, or their flow was ended, or its poll goes on to store them. -/
  exchanged : ∀ k t, (k, t) ∈ s.exchanged → (k, t) ∈ s.stored ∧ Completed (s.flows.lookup k) ∨ Ended (s.flows.lookup k) ∨
    .complete k t ∈ s.polls ∧ ∃ f, s.flows.lookup k = some f ∧ (f.state = .polling ∨ f.state = .authorized)
  completes : ∀ (i : Nat) k t s', s.polls[i]? = some (.complete k t) → ¬Ended (s.flows.lookup k) → step s (.goOn i .next) = some s' →
    (k, t) ∈ s'.stored ∧ s'.credential = some t.credential ∧ Completed (s'.flows.lookup k)
  /-- It waits only for a refresh that holds the lock. -/
  waits : ∀ (i : Nat) k t, s.polls[i]? = some (.complete k t) → step s (.goOn i .next) = none →
    ∃ (j : Nat) (r : Refresh), s.lock = some j ∧ s.refreshes[j]? = some r ∧ r.locks = true
  sends : ∀ (i : Nat) c, s.refreshes[i]? = some (.fetch c) → s.lock = some i ∧ s.credential = some c
  writes : ∀ (i : Nat) c new, s.refreshes[i]? = some (.save c new) →
    s.lock = some i ∧ s.credential = some c ∧ ((c, new) ∈ s.redeemed ∨ ∃ code, new = c.reconnect code)
  refreshed : ∀ (i : Nat) answer s', step s (.refresh i answer) = some s' → s.credential = none → s'.credential = none
  disconnected : ∀ s', step s .disconnect = some s' → s'.credential = none ∧ ∀ k, Settled (s'.flows.lookup k)

theorem complete_waits (hp : s.polls[i]? = some (.complete k tokens)) (h : step s (.goOn i .next) = none) : s.lock ≠ none := by
  intro hlock
  change step s (.goOn i _) = _ at h
  rw [step] at h
  rw [hp] at h
  have hpoll := Option.map_eq_none_iff.mp h
  have hcomplete : s.completeFlow k tokens = none := Option.map_eq_none_iff.mp hpoll
  unfold State.completeFlow at hcomplete
  split at hcomplete
  · rw [hlock] at hcomplete
    cases hcomplete
  · cases hcomplete

theorem complete_stores (hs : Inv s) (hp : s.polls[i]? = some (.complete k tokens)) (hlive : ¬Ended (s.flows.lookup k))
    (h : step s (.goOn i .next) = some s') :
    (k, tokens) ∈ s'.stored ∧ s'.credential = some tokens.credential ∧ Completed (s'.flows.lookup k) := by
  change step s (.goOn i _) = _ at h
  rw [step] at h
  rw [hp] at h
  obtain ⟨⟨s₁, p'⟩, hpoll, rfl⟩ := Option.map_eq_some_iff.mp h
  have hm := poll_move hpoll
  cases hm with
  | completed _ _ f hf =>
    refine ⟨List.mem_cons_self, rfl, fun f' hf' => ?_⟩
    dsimp only at hf'
    rw [lookup_setFlow, if_pos rfl, hf] at hf'
    cases hf'
    rfl
  | uncompleted _ _ hnot =>
    rcases (hs.poll _ (List.mem_of_getElem? hp)).busy k rfl with hended | ⟨f, hf, hstate⟩
    · exact absurd hended hlive
    · exact absurd hstate (not_or.mpr (hnot f hf))

theorem refresh_none (hs : Locked s) (h : step s (.refresh i answer) = some s') (hnone : s.credential = none) : s'.credential = none := by
  change step s (.refresh i _) = _ at h
  rw [step] at h
  split at h
  · cases h
  next r hr =>
    obtain ⟨⟨s₁, r'⟩, hrefresh, rfl⟩ := Option.map_eq_some_iff.mp h
    have hsound := hs.sound i r hr
    cases refresh_move hrefresh with
    | saved c new =>
      have hcred := hsound.2.1
      rw [hnone] at hcred
      cases hcred
    | _ => exact hnone

theorem disconnect_settled (h : step s .disconnect = some s') : s'.credential = none ∧ ∀ k, Settled (s'.flows.lookup k) := by
  change (if s.lock.isSome then none else _) = _ at h
  split at h
  · cases h
  · cases h
    refine ⟨rfl, fun k f hf => ?_⟩
    dsimp only at hf
    rw [Table.lookup_update] at hf
    obtain ⟨f₀, -, rfl⟩ := Option.map_eq_some_iff.mp hf
    rw [if_pos rfl, State.cancel]
    split
    · rfl
    next hlive => simpa using hlive

theorem Inv.kept (hs : Inv s) (hl : Locked s) : Kept s where
  once := hs.once
  one i j k k' c hi hj := by
    have hsound := hs.poll _ (List.mem_of_getElem? hi)
    have hsound' := hs.poll _ (List.mem_of_getElem? hj)
    have hkk' := hs.issued c k k' (hsound.code k c rfl rfl) (hsound'.code k' c rfl rfl)
    exact hs.alone i j _ _ k hi hj rfl (congrArg some hkk'.symm)
  exchanged k t he := by
    rcases (hs.exchanged k t he).2 with hst | hended | hpoll
    · exact .inl ⟨hst, (hs.stored k t hst).2⟩
    · exact .inr (.inl hended)
    · exact .inr (((hs.poll _ hpoll).busy k rfl).imp_right fun hbusy => ⟨hpoll, hbusy⟩)
  completes i k t s' := complete_stores hs
  waits i k t hi hwait := by
    obtain ⟨j, hj⟩ := Option.ne_none_iff_exists'.mp (complete_waits hi hwait)
    obtain ⟨r, hr, hlocks⟩ := hl.held j hj
    exact ⟨j, r, hj, hr, hlocks⟩
  sends i c hi := hl.sound i _ hi
  writes i c new hi := hl.sound i _ hi
  refreshed i answer s' := refresh_none hl
  disconnected s' := disconnect_settled

/-- A ChatGPT sign-in that was granted is neither lost nor brought back. -/
theorem sign_in_kept (h : system.ReachesUnder exclusive s) (hrun : system.Run exclusive s t) : Kept t ∧
    ∀ k, k < s.nextFlow → Settled (s.flows.lookup k) → (t.flows.lookup k = s.flows.lookup k ∨ t.flows.lookup k = none) ∧
      ∀ tokens, (k, tokens) ∈ t.stored → (k, tokens) ∈ s.stored := by
  have ht := h.run hrun
  refine ⟨(inv_invariant.reachesUnder ht).kept (locked_invariant.reachable ht.reachable), fun k hk hsettled => ?_⟩
  exact (run_over hrun hk hsettled).2

/-- Nothing is signed in at the start of an example. -/
def exampleState : State := { now := 0, flows := ∅, nextFlow := 0, credential := none, lock := none, polls := [], refreshes := [] }

theorem exampleState_initial : Initial exampleState := ⟨rfl, rfl, rfl, rfl, rfl, rfl, rfl, rfl, rfl⟩

def exampleTokens : Tokens := { access := "a", refresh := "r", expiresAt := 3600000 }

/-- A poll gets its code, and comes to the exchange. -/
def toExchange : List Label :=
  [.createFlow (1, "s") 5000, .tick 5000, .poll 0 (1, "s"), .goOn 0 .next, .goOn 0 (.code "c"), .goOn 0 .next]

/-- The flow is completed, the credential refreshed, and the account disconnected. -/
theorem sign_in_kept_disconnected : ∃ s t, system.ReachesUnder exclusive s ∧ system.Run exclusive s t ∧
    s.stored = [(0, exampleTokens)] ∧ t.credential = none ∧ Kept t ∧
    (t.flows.lookup 0 = s.flows.lookup 0 ∨ t.flows.lookup 0 = none) := by
  have htrace : (system.exec exclusive exampleState (toExchange ++ [.goOn 0 (.tokens exampleTokens), .goOn 0 .next])).any
      (fun s => decide (s.stored = [(0, exampleTokens)]) && decide (s.nextFlow = 1) &&
        (s.flows.lookup 0).all (fun f => !f.state.live) &&
        (system.exec exclusive s [.getAccess true, .refresh 0 .next, .refresh 0 .next, .refresh 0 (.refreshed "b" none 7200000),
          .refresh 0 .next, .disconnect]).any fun t => decide (t.credential = none)) = true := by decide +kernel
  obtain ⟨s, hs, hp⟩ := TransitionSystem.reaches_of_exec exampleState_initial htrace
  simp only [Bool.and_eq_true, decide_eq_true_eq, Option.all_eq_true, Bool.not_eq_true'] at hp
  obtain ⟨⟨⟨hstored, hnext⟩, hover⟩, hrest⟩ := hp
  obtain ⟨t, hrun, hnone⟩ := TransitionSystem.run_of_exec_any hrest
  obtain ⟨hkept, hsettled⟩ := sign_in_kept hs hrun
  exact ⟨s, t, hs, hrun, hstored, of_decide_eq_true hnone, hkept, (hsettled 0 (hnext ▸ Nat.one_pos) hover).1⟩

/-- A second poll claims the flow while its code is exchanged, and turns it failed: the tokens that the first received are lost. -/
theorem sign_in_kept_claimed_again : ∃ s f, system.Reachable s ∧ (0, exampleTokens) ∈ s.exchanged ∧ s.stored = [] ∧ s.credential = none ∧
    s.flows.lookup 0 = some f ∧ f.state = .failed ∧ (∀ p ∈ s.polls, p.holds = none) ∧ ¬Kept s := by
  have htrace : (system.exec TransitionSystem.anyStep exampleState (toExchange ++ [.poll 0 (1, "s"), .goOn 1 .next,
      .goOn 0 (.tokens exampleTokens), .goOn 1 (.error (some "invalid_grant") false true false), .goOn 1 .next, .goOn 0 .next])).any
      (fun s => s.exchanged.contains (0, exampleTokens) && s.stored.isEmpty && s.credential.isNone &&
        (s.flows.lookup 0).any (fun f => decide (f.state = .failed)) && s.polls.all fun p => p.holds.isNone) = true := by
    decide +kernel
  obtain ⟨s, hs, hp⟩ := TransitionSystem.reaches_of_exec exampleState_initial htrace
  simp only [Bool.and_eq_true, List.contains_iff_mem, List.isEmpty_iff, Option.isNone_iff_eq_none, List.all_eq_true] at hp
  obtain ⟨⟨⟨⟨hexchanged, hstored⟩, hnone⟩, hfailed⟩, hdone⟩ := hp
  obtain ⟨f, hf, hstate⟩ := (Option.any_eq_true _ _).mp hfailed
  rw [decide_eq_true_eq] at hstate
  refine ⟨s, f, hs, hexchanged, hstored, hnone, hf, hstate, hdone, fun hkept => ?_⟩
  rcases hkept.exchanged 0 exampleTokens hexchanged with ⟨hmem, -⟩ | hended | ⟨-, f', hf', hlive⟩
  · rw [hstored] at hmem
    cases hmem
  · have hcase := hended f hf
    rw [hstate] at hcase
    rcases hcase with h | h <;> cases h
  · rw [hf] at hf'
    cases hf'
    rw [hstate] at hlive
    rcases hlive with h | h <;> cases h

end MailExpert.Codex
