import MailExpert.Codex.Polls

/-!
# A granted sign-in is kept

While a flow goes only to a poll when no other poll that claimed it is still under way (`exclusive`), the tokens that a poll receives
are stored, unless the flow was ended meanwhile (`Inv`).
-/

namespace MailExpert.Codex

variable {s s' t : State} {id k : FlowId} {owner : Owner} {f : Flow} {p p' q : Poll} {r r' : Refresh} {answer : Answer} {l : Label}
  {c : Code} {tokens : Tokens} {i j : Nat} {cred new : Credential} {o o' : Option Flow}

def claimed (s : State) : Label → Option FlowId
  | .goOn i .next =>
    match s.polls[i]? with
    | some (.claim id owner time) => (s.claimFlow id owner time).2.holds
    | _ => none
  | _ => none

/-- A poll is given a flow only when no other poll that claimed it is still under way. -/
def exclusive (s : State) (l : Label) : Prop := ∀ id ∈ claimed s l, ∀ q ∈ s.polls, q.holds ≠ some id

instance : Decidable (exclusive s l) := inferInstanceAs (Decidable (∀ id ∈ claimed s l, ∀ q ∈ s.polls, q.holds ≠ some id))

/-- The flow was ended without its tokens, and perhaps purged. -/
def Ended (o : Option Flow) : Prop := ∀ f, o = some f → f.state = .cancelled ∨ f.state = .expired

/-- The flow came to its end with its tokens, and was perhaps purged. -/
def Completed (o : Option Flow) : Prop := ∀ f, o = some f → f.state = .completed

def Busy (o : Option Flow) : Prop := Ended o ∨ ∃ f, o = some f ∧ (f.state = .polling ∨ f.state = .authorized)

theorem Ended.settled (h : Ended o) : Settled o := by
  intro f hf
  rcases h f hf with hstate | hstate <;> rw [hstate] <;> rfl

theorem Completed.settled (h : Completed o) : Settled o := by
  intro f hf
  rw [h f hf]
  rfl

theorem Ended.over (h : Ended o) (hover : Over o o') : Ended o' := by
  rcases hover h.settled with rfl | rfl
  · exact h
  · exact fun f hf => by cases hf

theorem Completed.over (h : Completed o) (hover : Over o o') : Completed o' := by
  rcases hover h.settled with rfl | rfl
  · exact h
  · exact fun f hf => by cases hf

theorem Settled.over (h : Settled o) (hover : Over o o') : Settled o' := by
  rcases hover h with rfl | rfl
  · exact h
  · exact fun f hf => by cases hf

theorem Busy.leaves (h : Busy o) (hleaves : Leaves o o') : Busy o' := by
  rcases hleaves with rfl | rfl | ⟨_, f', -, -, rfl, hstate, -⟩
  · exact h
  · exact .inl fun f hf => by cases hf
  · refine .inl fun f hf => ?_
    cases hf
    exact hstate

def Poll.code : Poll → Option Code
  | .authorize _ c | .exchange _ c => some c
  | _ => none

/-- What a poll holds is its own and still to be had. -/
structure Poll.Sound (s : State) (p : Poll) : Prop where
  known : ∀ k, p.holds = some k → k < s.nextFlow
  busy : ∀ k, p.holds = some k → Busy (s.flows.lookup k)
  code : ∀ k c, p.holds = some k → p.code = some c → (c, k) ∈ s.issued

theorem Poll.Sound.of_holds (h : p.holds = none) : p.Sound s where
  known k hk := by simp [h] at hk
  busy k hk := by simp [h] at hk
  code k c hk := by simp [h] at hk

structure Inv (s : State) : Prop where
  known : ∀ k f, s.flows.lookup k = some f → k < s.nextFlow
  code : ∀ k f c, s.flows.lookup k = some f → f.code = some c → (c, k) ∈ s.issued
  issued : ∀ c k k', (c, k) ∈ s.issued → (c, k') ∈ s.issued → k = k'
  poll : ∀ p ∈ s.polls, p.Sound s
  alone : ∀ (i j : Nat) p q k, s.polls[i]? = some p → s.polls[j]? = some q → p.holds = some k → q.holds = some k → i = j
  stored : ∀ k t, (k, t) ∈ s.stored → k < s.nextFlow ∧ Completed (s.flows.lookup k)
  once : (s.stored.map Prod.fst).Nodup
  exchanged : ∀ k t, (k, t) ∈ s.exchanged → k < s.nextFlow ∧
    ((k, t) ∈ s.stored ∨ Ended (s.flows.lookup k) ∨ .complete k t ∈ s.polls)

theorem Inv.init (h : Initial s) : Inv s where
  known k f hf := by simp [h.flows] at hf
  code k f c hf := by simp [h.flows] at hf
  issued c k k' hc := by simp [h.issued] at hc
  poll p hp := by simp [h.polls] at hp
  alone i j p q k hp := by simp [h.polls] at hp
  stored k t hs := by simp [h.stored] at hs
  once := by simp [h.stored]
  exchanged k t he := by simp [h.exchanged] at he

theorem Poll.Sound.aside (h : p.Sound s) (ha : Aside s s') : p.Sound s' where
  known k hk := (h.known k hk).trans_le ha.nextFlow
  busy k hk := (h.busy k hk).leaves (ha.leaves k (h.known k hk))
  code k c hk hc := ha.issued ▸ h.code k c hk hc

theorem Inv.aside (h : Inv s) (ha : Aside s s') : Inv s' where
  known k f hf := by
    by_cases hk : k < s.nextFlow
    · exact hk.trans_le ha.nextFlow
    · rcases ha.fresh k f hf (not_lt.mp hk) with ⟨f₀, hf₀⟩ | ⟨hlt, -⟩
      · exact absurd (h.known k f₀ hf₀) hk
      · exact hlt
  code k f c hf hc := by
    rw [ha.issued]
    by_cases hk : k < s.nextFlow
    · rcases ha.leaves k hk with heq | heq | ⟨_, f', -, -, heq, -, hnone⟩
      · exact h.code k f c (heq ▸ hf) hc
      · rw [heq] at hf
        cases hf
      · rw [heq] at hf
        cases hf
        rw [hnone] at hc
        cases hc
    · rcases ha.fresh k f hf (not_lt.mp hk) with ⟨f₀, hf₀⟩ | ⟨-, -, hnone⟩
      · exact absurd (h.known k f₀ hf₀) hk
      · rw [hnone] at hc
        cases hc
  issued := ha.issued ▸ h.issued
  poll p hp := by
    obtain ⟨j, hj⟩ := List.mem_iff_getElem?.mp hp
    rcases ha.polls j p hj with hold | ⟨id, owner, _, rfl⟩
    · exact (h.poll p (List.mem_of_getElem? hold)).aside ha
    · exact .of_holds rfl
  alone i j p q k hp hq hpk hqk := by
    rcases ha.polls i p hp with hp | ⟨_, _, _, rfl⟩
    · rcases ha.polls j q hq with hq | ⟨_, _, _, rfl⟩
      · exact h.alone i j p q k hp hq hpk hqk
      · cases hqk
    · cases hpk
  stored k t hs := by
    obtain ⟨hk, hover⟩ := h.stored k t (ha.stored ▸ hs)
    exact ⟨hk.trans_le ha.nextFlow, hover.over (ha.leaves k hk).over⟩
  once := ha.stored ▸ h.once
  exchanged k t he := by
    obtain ⟨hk, hcase⟩ := h.exchanged k t (ha.exchanged ▸ he)
    refine ⟨hk.trans_le ha.nextFlow, ?_⟩
    rcases hcase with hstored | hended | hpoll
    · exact .inl (ha.stored ▸ hstored)
    · exact .inr (.inl (hended.over (ha.leaves k hk).over))
    · obtain ⟨j, hj⟩ := List.mem_iff_getElem?.mp hpoll
      exact .inr (.inr (List.mem_of_getElem? (ha.keeps j _ hj)))

/-! ## A step of a poll -/

theorem Move.holds (h : Move s p s' p') (hk : p'.holds = some k) :
    p.holds = some k ∨ p.holds = none ∧ ∃ f, s.flows.lookup k = some f := by
  cases h with
  | claimed id owner time f p' hf hlive hp =>
    refine .inr ⟨rfl, f, ?_⟩
    rcases hp with ⟨_, rfl⟩ | ⟨_, -, rfl⟩ <;> (cases hk; exact hf)
  | refused | unauthorized | completed | uncompleted | released => cases hk
  | _ => exact .inl hk

theorem Move.known (h : Move s p s' p') (hf : s'.flows.lookup k = some f) : ∃ f₀, s.flows.lookup k = some f₀ := by
  have hset {id : FlowId} {g : Flow → Flow} (h : (s.setFlow id g).flows.lookup k = some f) : ∃ f₀, s.flows.lookup k = some f₀ := by
    rw [lookup_setFlow] at h
    split at h
    · obtain ⟨f₀, hf₀, -⟩ := Option.map_eq_some_iff.mp h
      exact ⟨f₀, hf₀⟩
    · exact ⟨f, h⟩
  cases h with
  | refused id owner time flows hleaves =>
    rcases hleaves k with heq | heq | ⟨f₀, _, heq, -⟩
    · exact ⟨f, heq ▸ hf⟩
    · rw [heq] at hf
      cases hf
    · exact ⟨f₀, heq⟩
  | claimed | authorized | completed | released => exact hset hf
  | _ => exact ⟨f, hf⟩

theorem Move.busy (h : Move s p s' p') (hp : p.Sound s) (hk : p'.holds = some k) : Busy (s'.flows.lookup k) := by
  cases h with
  | refused | unauthorized | completed | uncompleted | released => cases hk
  | claimed id owner time f p' hf hlive hpoll =>
    have heq : id = k := by rcases hpoll with ⟨_, rfl⟩ | ⟨_, -, rfl⟩ <;> exact Option.some.inj hk
    subst heq
    rw [lookup_setFlow, if_pos rfl, hf]
    exact .inr ⟨_, rfl, .inl rfl⟩
  | authorized id c f hf hstate =>
    cases hk
    rw [lookup_setFlow, if_pos rfl, hf]
    exact .inr ⟨_, rfl, .inr rfl⟩
  | _ => exact hp.busy k hk

theorem Move.issued_mono (h : Move s p s' p') (hc : (c, k) ∈ s.issued) : (c, k) ∈ s'.issued := by
  cases h with
  | issued => exact List.mem_cons_of_mem _ hc
  | _ => exact hc

theorem Move.issued_unique (h : Move s p s' p') (hs : ∀ c k k', (c, k) ∈ s.issued → (c, k') ∈ s.issued → k = k') {k' : FlowId}
    (hc : (c, k) ∈ s'.issued) (hc' : (c, k') ∈ s'.issued) : k = k' := by
  cases h with
  | issued id g d hfresh =>
    rcases List.mem_cons.mp hc with heq | hold <;> rcases List.mem_cons.mp hc' with heq' | hold'
    · rw [Prod.mk.injEq] at heq heq'
      rw [heq.2, heq'.2]
    · obtain ⟨rfl, rfl⟩ := Prod.mk.inj heq
      exact (hfresh k' hold').symm
    · obtain ⟨rfl, rfl⟩ := Prod.mk.inj heq'
      exact hfresh k hold
    · exact hs c k k' hold hold'
  | _ => exact hs c k k' hc hc'

theorem Move.code (h : Move s p s' p') (hs : Inv s) (hp : p.Sound s) (hk : p'.holds = some k) (hc : p'.code = some c) :
    (c, k) ∈ s'.issued := by
  cases h with
  | claimed id owner time f p' hf hlive hpoll =>
    rcases hpoll with ⟨_, rfl⟩ | ⟨d, hd, rfl⟩
    · cases hc
    · cases hk
      cases hc
      exact hs.code _ f _ hf hd
  | issued id g d hfresh =>
    cases hk
    cases hc
    exact List.mem_cons_self
  | authorized id d f hf hstate =>
    cases hk
    cases hc
    exact hp.code _ _ rfl rfl
  | _ => cases hc

theorem Move.flowCode (h : Move s p s' p') (hs : Inv s) (hp : p.Sound s) (hf : s'.flows.lookup k = some f) (hc : f.code = some c) :
    (c, k) ∈ s'.issued := by
  have hset {id : FlowId} {g : Flow → Flow} (h : (s.setFlow id g).flows.lookup k = some f)
      (hg : ∀ f₀, k = id → (g f₀).code = some c → f₀.code = some c ∨ (c, k) ∈ s.issued) : (c, k) ∈ s.issued := by
    rw [lookup_setFlow] at h
    split at h
    next heq =>
      obtain ⟨f₀, hf₀, rfl⟩ := Option.map_eq_some_iff.mp h
      exact (hg f₀ heq hc).elim (hs.code k f₀ c hf₀) fun h => h
    next => exact hs.code k f c h hc
  cases h with
  | refused id owner time flows hleaves =>
    rcases hleaves k with heq | heq | ⟨_, _, -, -, heq, -, hnone⟩
    · exact hs.code k f c (heq ▸ hf) hc
    · rw [heq] at hf
      cases hf
    · rw [heq] at hf
      cases hf
      rw [hnone] at hc
      cases hc
  | claimed => exact hset hf fun f₀ _ hc => .inl hc
  | issued => exact List.mem_cons_of_mem _ (hs.code k f c hf hc)
  | authorized id d f' hf' hstate =>
    refine hset hf fun f₀ heq hc => .inr ?_
    cases hc
    subst heq
    exact hp.code _ _ rfl rfl
  | completed => exact hset hf fun f₀ _ hc => by cases hc
  | released id r =>
    refine hset hf fun f₀ _ hc => .inl ?_
    split at hc
    · dsimp only at hc
      split at hc
      · cases hc
      · exact hc
    · exact hc
  | _ => exact hs.code k f c hf hc

/-- What a poll that comes to `completeFlow` makes of its tokens. -/
theorem Move.stored (h : Move s p s' p') : s'.stored = s.stored ∨ ∃ k t, p = .complete k t ∧ s'.stored = (k, t) :: s.stored ∧
    (∃ f, s.flows.lookup k = some f ∧ f.state.live = true) ∧ Completed (s'.flows.lookup k) := by
  cases h with
  | completed id tokens f hf hstate hlock =>
    refine .inr ⟨id, tokens, rfl, rfl, ⟨f, hf, by rcases hstate with hstate | hstate <;> rw [hstate] <;> rfl⟩, fun f' hf' => ?_⟩
    dsimp only at hf'
    rw [lookup_setFlow, if_pos rfl, hf] at hf'
    cases hf'
    rfl
  | _ => exact .inl rfl

theorem Move.exchanged_cases (h : Move s p s' p') : s'.exchanged = s.exchanged ∨
    ∃ k t, p.holds = some k ∧ p' = .complete k t ∧ s'.exchanged = (k, t) :: s.exchanged := by
  cases h with
  | exchanged id c tokens spent => exact .inr ⟨id, tokens, rfl, rfl, rfl⟩
  | _ => exact .inl rfl

/-- The tokens are stored by `completeFlow`, unless the flow was ended. -/
theorem Move.complete (h : Move s (.complete k tokens) s' p') (hbusy : Busy (s.flows.lookup k)) :
    (k, tokens) ∈ s'.stored ∨ Ended (s'.flows.lookup k) := by
  cases h with
  | completed => exact .inl List.mem_cons_self
  | uncompleted _ _ hnot =>
    refine .inr (hbusy.resolve_right ?_)
    rintro ⟨f, hf, hstate⟩
    exact hstate.elim (hnot f hf).1 (hnot f hf).2

/-- While poll `i` moves, no other poll has what it held or takes. -/
theorem Inv.apart (hs : Inv s) (hp : s.polls[i]? = some p) (hm : Move s p s' p')
    (hex : ∀ k, p.holds = none → p'.holds = some k → ∀ q ∈ s.polls, q.holds ≠ some k) (hq : s.polls[j]? = some q) (hij : i ≠ j)
    (hk : q.holds = some k) : p.holds ≠ some k ∧ p'.holds ≠ some k := by
  have hp' : p.holds ≠ some k := fun hpk => hij (hs.alone i j p q k hp hq hpk hk)
  refine ⟨hp', fun hk' => ?_⟩
  rcases hm.holds hk' with hpk | ⟨hnone, -⟩
  · exact hp' hpk
  · exact hex k hnone hk' q (List.mem_of_getElem? hq) hk

theorem Inv.move (hs : Inv s) (hp : s.polls[i]? = some p) (hm : Move s p s' p')
    (hex : ∀ k, p.holds = none → p'.holds = some k → ∀ q ∈ s.polls, q.holds ≠ some k) : Inv { s' with polls := s'.polls.set i p' } where
  known k f hf := by
    obtain ⟨f₀, hf₀⟩ := hm.known hf
    exact hm.nextFlow ▸ hs.known k f₀ hf₀
  code k f c hf hc := hm.flowCode hs (hs.poll p (List.mem_of_getElem? hp)) hf hc
  issued c k k' hc hc' := hm.issued_unique hs.issued hc hc'
  poll q hq := by
    have hsound := hs.poll p (List.mem_of_getElem? hp)
    obtain ⟨j, hj⟩ := List.mem_iff_getElem?.mp hq
    dsimp only at hj
    rw [hm.polls] at hj
    rcases (Agents.getElem?_set_some hp).mp hj with ⟨-, rfl⟩ | ⟨hij, hj⟩
    · refine ⟨fun k hk => ?_, fun k hk => hm.busy hsound hk, fun k c hk hc => hm.code hs hsound hk hc⟩
      rcases hm.holds hk with hpk | ⟨-, f, hf⟩
      · exact hm.nextFlow ▸ hsound.known k hpk
      · exact hm.nextFlow ▸ hs.known k f hf
    · have hother := hs.poll q (List.mem_of_getElem? hj)
      refine ⟨fun k hk => hm.nextFlow ▸ hother.known k hk, fun k hk => ?_, fun k c hk hc => hm.issued_mono (hother.code k c hk hc)⟩
      obtain ⟨hpk, hpk'⟩ := hs.apart hp hm hex hj hij hk
      exact (hother.busy k hk).leaves (hm.leaves hpk hpk')
  alone a b q q' k hq hq' hk hk' := by
    dsimp only at hq hq'
    rw [hm.polls] at hq hq'
    rcases (Agents.getElem?_set_some hp).mp hq with ⟨rfl, rfl⟩ | ⟨hia, ha⟩ <;>
      rcases (Agents.getElem?_set_some hp).mp hq' with ⟨rfl, rfl⟩ | ⟨hib, hb⟩
    · rfl
    · exact absurd hk (hs.apart hp hm hex hb hib hk').2
    · exact absurd hk' (hs.apart hp hm hex ha hia hk).2
    · exact hs.alone a b q q' k ha hb hk hk'
  stored k t hst := by
    have hold (hst : (k, t) ∈ s.stored) : k < s'.nextFlow ∧ Completed (s'.flows.lookup k) := by
      obtain ⟨hk, hcompleted⟩ := hs.stored k t hst
      exact ⟨hm.nextFlow ▸ hk, hcompleted.over hm.over⟩
    rcases hm.stored with heq | ⟨id, tokens, rfl, heq, -, hcompleted⟩
    · exact hold (heq ▸ hst)
    · rcases List.mem_cons.mp (heq ▸ hst) with heq' | hst
      · obtain ⟨rfl, rfl⟩ := Prod.mk.inj heq'
        exact ⟨hm.nextFlow ▸ (hs.poll _ (List.mem_of_getElem? hp)).known _ rfl, hcompleted⟩
      · exact hold hst
  once := by
    rcases hm.stored with heq | ⟨id, tokens, rfl, heq, ⟨f, hf, hlive⟩, -⟩
    · exact heq ▸ hs.once
    · rw [heq, List.map_cons, List.nodup_cons]
      refine ⟨fun hmem => ?_, hs.once⟩
      obtain ⟨⟨_, t⟩, hst, rfl⟩ := List.mem_map.mp hmem
      rw [(hs.stored _ t hst).2.settled f hf] at hlive
      cases hlive
  exchanged k t he := by
    have hmono (hst : (k, t) ∈ s.stored) : (k, t) ∈ s'.stored := by
      rcases hm.stored with heq | ⟨_, _, -, heq, -⟩ <;> rw [heq]
      · exact hst
      · exact List.mem_cons_of_mem _ hst
    have hmem : p' ∈ s'.polls.set i p' := by
      rw [hm.polls]
      exact List.mem_of_getElem? ((Agents.getElem?_set_some hp).mpr (.inl ⟨rfl, rfl⟩))
    have hold (he : (k, t) ∈ s.exchanged) : k < s'.nextFlow ∧
        ((k, t) ∈ s'.stored ∨ Ended (s'.flows.lookup k) ∨ .complete k t ∈ s'.polls.set i p') := by
      obtain ⟨hk, hcase⟩ := hs.exchanged k t he
      refine ⟨hm.nextFlow ▸ hk, ?_⟩
      rcases hcase with hst | hended | hpoll
      · exact .inl (hmono hst)
      · exact .inr (.inl (hended.over hm.over))
      · obtain ⟨j, hj⟩ := List.mem_iff_getElem?.mp hpoll
        by_cases hij : i = j
        · subst hij
          rw [hj] at hp
          cases hp
          exact (hm.complete ((hs.poll _ hpoll).busy k rfl)).imp_right .inl
        · refine .inr (.inr ?_)
          rw [hm.polls]
          exact List.mem_of_getElem? ((Agents.getElem?_set_some hp).mpr (.inr ⟨hij, hj⟩))
    rcases hm.exchanged_cases with heq | ⟨id, tokens, hid, rfl, heq⟩
    · exact hold (heq ▸ he)
    · rcases List.mem_cons.mp (heq ▸ he) with heq' | he
      · obtain ⟨rfl, rfl⟩ := Prod.mk.inj heq'
        exact ⟨hm.nextFlow ▸ (hs.poll p (List.mem_of_getElem? hp)).known _ hid, .inr (.inr hmem)⟩
      · exact hold he

theorem poll_next (h : s.poll p answer = some (s', p')) (hnone : p.holds = none) :
    ∃ id owner time, p = .claim id owner time ∧ answer = .next ∧ p' = (s.claimFlow id owner time).2 := by
  cases p with
  | claim id owner time =>
    cases answer with
    | next =>
      rw [State.poll] at h
      exact ⟨id, owner, time, rfl, rfl, (congrArg Prod.snd (Option.some.inj h)).symm⟩
    | _ => cases h
  | done => cases h
  | _ => cases hnone

theorem inv_invariant : system.Invariant exclusive Inv where
  init := .init
  step {s l s'} hs hex hstep := by
    rcases step_cases hstep with ha | ⟨i, answer, p, p', s₁, rfl, hp, hpoll, rfl⟩
    · exact hs.aside ha
    · refine hs.move hp (poll_move hpoll) fun k hnone hk => ?_
      obtain ⟨id, owner, time, rfl, rfl, rfl⟩ := poll_next hpoll hnone
      refine hex k ?_
      rw [Option.mem_def, claimed, hp]
      exact hk

end MailExpert.Codex
