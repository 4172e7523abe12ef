import MailExpert.Codex.DeviceFlow

/-!
# The steps of the polls

What one step does to the flows: a poll moves the flow that it holds (`Move`), and whoever does not hold a flow leaves it, beside the
ends that an administrator or its time limit make of it (`Leaves`). A flow that is over stays as it is (`Over`).
-/

namespace MailExpert.Codex

variable {s s' t : State} {id k : FlowId} {owner : Owner} {f f' : Flow} {p p' q : Poll} {r r' : Refresh} {answer : Answer}
  {c : Code} {tokens : Tokens} {i j n : Nat} {cred new : Credential}

theorem lookup_setFlow {g : Flow → Flow} :
    (s.setFlow id g).flows.lookup k = if k = id then (s.flows.lookup k).map g else s.flows.lookup k := by
  rw [State.setFlow, Table.lookup_modify]
  split
  next h => rw [h]
  next => rfl

/-- What others may make of a flow while a poll has it: nothing, or its end. -/
def Leaves (o o' : Option Flow) : Prop :=
  o' = o ∨ o' = none ∨ ∃ f f', o = some f ∧ f.state.live = true ∧ o' = some f' ∧ (f'.state = .cancelled ∨ f'.state = .expired) ∧
    f'.code = none

theorem cancel_leaves : Leaves (some f) (some (s.cancel f)) := by
  rw [State.cancel]
  split
  next hlive => exact .inr (.inr ⟨f, _, rfl, hlive, rfl, .inl rfl, rfl⟩)
  next => exact .inl rfl

theorem Leaves.map {o : Option Flow} {g : Flow → Flow} (h : ∀ f, o = some f → Leaves (some f) (some (g f))) : Leaves o (o.map g) := by
  cases o with
  | none => exact .inl rfl
  | some f => exact h f rfl

theorem Leaves.filter {o : Option Flow} {q : Flow → Bool} (h : Leaves o (some f)) : Leaves o ((some f).filter q) := by
  rw [Option.filter_some]
  split
  · exact h
  · exact .inr (.inl rfl)

/-- No flow is there, or one that is over. -/
def Settled (o : Option Flow) : Prop := ∀ f, o = some f → f.state.live = false

def Over (o o' : Option Flow) : Prop := Settled o → o' = o ∨ o' = none

theorem Leaves.over {o o' : Option Flow} (h : Leaves o o') : Over o o' := by
  intro hover
  rcases h with rfl | rfl | ⟨f₀, _, rfl, hlive, -⟩
  · exact .inl rfl
  · exact .inr rfl
  · rw [hover f₀ rfl] at hlive
    cases hlive

theorem createFlow_leaves (hk : k < s.nextFlow) : Leaves (s.flows.lookup k) ((s.createFlow owner n).flows.lookup k) := by
  rw [State.createFlow, Table.lookup_insert', if_neg (Nat.ne_of_lt hk), Table.lookup_delete, Table.lookup_update]
  cases hf : s.flows.lookup k with
  | none => exact .inl rfl
  | some f =>
    refine Leaves.filter ?_
    dsimp only
    split
    · exact cancel_leaves
    · exact .inl rfl

theorem createFlow_lookup (h : (s.createFlow owner n).flows.lookup k = some f) : (k = s.nextFlow ∧ f.state = .pending ∧ f.code = none) ∨
    ∃ f₀, s.flows.lookup k = some f₀ ∧ (f = f₀ ∨ f = s.cancel f₀) := by
  rw [State.createFlow, Table.lookup_insert', Table.lookup_delete, Table.lookup_update] at h
  split at h
  next heq =>
    cases h
    exact .inl ⟨heq, rfl, rfl⟩
  next =>
    obtain ⟨h, -⟩ := Option.filter_eq_some_iff.mp h
    obtain ⟨f₀, hf₀, rfl⟩ := Option.map_eq_some_iff.mp h
    refine .inr ⟨f₀, hf₀, ?_⟩
    split
    · exact .inr rfl
    · exact .inl rfl

theorem cancelFlow_leaves : Leaves (s.flows.lookup k)
    ((s.setFlow id fun flow => if flow.owner = owner then s.cancel flow else flow).flows.lookup k) := by
  rw [lookup_setFlow]
  split
  · refine .map fun f _ => ?_
    split
    · exact cancel_leaves
    · exact .inl rfl
  · exact .inl rfl

theorem disconnect_leaves : Leaves (s.flows.lookup k) ((s.flows.update (fun _ _ => true) fun _ => s.cancel).lookup k) := by
  rw [Table.lookup_update]
  exact .map fun f _ => cancel_leaves

inductive Move (s : State) : Poll → State → Poll → Prop
  | refused (id : FlowId) (owner : Owner) (time : Nat) (flows : Table FlowId Flow) (h : ∀ k, Leaves (s.flows.lookup k) (flows.lookup k)) :
    Move s (.claim id owner time) { s with flows } .done
  | claimed (id : FlowId) (owner : Owner) (time : Nat) (f : Flow) (p' : Poll) (hf : s.flows.lookup id = some f) (hlive : f.state.live = true)
    (hp : (∃ g, p' = .device id g) ∨ ∃ c, f.code = some c ∧ p' = .exchange id c) :
    Move s (.claim id owner time) (s.setFlow id fun flow => { flow with state := .polling, updatedAt := time }) p'
  | answered (id : FlowId) (g : Flow) (r : Release) : Move s (.device id g) s (.release id r)
  | issued (id : FlowId) (g : Flow) (c : Code) (h : ∀ k, (c, k) ∈ s.issued → k = id) :
    Move s (.device id g) { s with issued := (c, id) :: s.issued } (.authorize id c)
  | authorized (id : FlowId) (c : Code) (f : Flow) (hf : s.flows.lookup id = some f) (hstate : f.state = .polling) :
    Move s (.authorize id c)
      (s.setFlow id fun flow => { flow with state := .authorized, code := some c, updatedAt := s.now }) (.exchange id c)
  | unauthorized (id : FlowId) (c : Code) : Move s (.authorize id c) s .done
  | refusedCode (id : FlowId) (c : Code) (spent : List Code) (r : Release) :
    Move s (.exchange id c) { s with spent } (.release id r)
  | exchanged (id : FlowId) (c : Code) (tokens : Tokens) (spent : List Code) :
    Move s (.exchange id c) { s with spent, exchanged := (id, tokens) :: s.exchanged } (.complete id tokens)
  | completed (id : FlowId) (tokens : Tokens) (f : Flow) (hf : s.flows.lookup id = some f)
    (hstate : f.state = .polling ∨ f.state = .authorized) (hlock : s.lock = none) :
    Move s (.complete id tokens) { s.setFlow id fun flow => { flow with state := .completed, code := none, updatedAt := s.now } with
      credential := some tokens.credential
      stored := (id, tokens) :: s.stored } .done
  | uncompleted (id : FlowId) (tokens : Tokens)
    (h : ∀ f, s.flows.lookup id = some f → f.state ≠ .polling ∧ f.state ≠ .authorized) : Move s (.complete id tokens) s .done
  | released (id : FlowId) (r : Release) : Move s (.release id r) (s.releaseFlow id r) .done

theorem claim_move : Move s (.claim id owner n) (s.claimFlow id owner n).1 (s.claimFlow id owner n).2 := by
  have hrefl : Move s (.claim id owner n) s .done := .refused _ _ _ s.flows fun _ => .inl rfl
  unfold State.claimFlow
  split
  · exact hrefl
  next f hf =>
  split
  · exact hrefl
  split
  next hexp =>
    refine .refused _ _ _ _ fun k => ?_
    rw [Bool.and_eq_true] at hexp
    rw [Table.lookup_modify]
    split
    next heq =>
      rw [heq, hf]
      exact .inr (.inr ⟨f, _, rfl, hexp.1, rfl, .inr rfl, rfl⟩)
    next => exact .inl rfl
  split
  · exact hrefl
  next hlive =>
  split
  · exact hrefl
  split
  · exact hrefl
  refine .claimed id owner n f _ hf (by simpa using hlive) ?_
  cases hc : f.code with
  | none => exact .inl ⟨_, rfl⟩
  | some c => exact .inr ⟨c, rfl, rfl⟩

theorem complete_move (h : s.completeFlow id tokens = some s') : Move s (.complete id tokens) s' .done := by
  unfold State.completeFlow at h
  split at h
  next hgo =>
    cases hf : s.flows.lookup id with
    | none => simp [hf] at hgo
    | some f =>
    split at h
    · cases h
    next hlock =>
      cases h
      exact .completed id tokens f hf (by simpa [hf] using hgo) (by simpa using hlock)
  next hgo =>
    cases h
    refine .uncompleted _ _ fun f hf => ?_
    simpa [hf] using hgo

theorem poll_move (h : s.poll p answer = some (s', p')) : Move s p s' p' := by
  unfold State.poll at h
  split at h
  case h_1 id owner time =>
    have heq := Option.some.inj h
    have hmove : Move s (.claim id owner time) (s.claimFlow id owner time).1 (s.claimFlow id owner time).2 := claim_move
    rwa [heq] at hmove
  case h_5 id flow c =>
    split at h
    next hfresh =>
      cases h
      refine .issued id flow c fun k hk => ?_
      simpa using List.all_eq_true.mp hfresh _ hk
    next => cases h
  case h_6 id code =>
    have heq := Option.some.inj h
    rw [State.authorizeFlow] at heq
    split at heq
    next hgo =>
      cases heq
      cases hf : s.flows.lookup id with
      | none => simp [hf] at hgo
      | some f => exact .authorized id code f hf (by simpa [hf] using hgo)
    next =>
      cases heq
      exact .unauthorized id code
  case h_9 id tokens =>
    obtain ⟨s₁, hcomplete, heq⟩ := Option.map_eq_some_iff.mp h
    cases heq
    exact complete_move hcomplete
  case h_2 | h_3 | h_4 =>
    cases h
    exact .answered ..
  case h_7 =>
    split at h
    · cases h
    · cases h
      exact .refusedCode ..
  case h_8 =>
    split at h
    · cases h
    · cases h
      exact .exchanged ..
  case h_10 =>
    cases h
    exact .released ..
  case h_11 => cases h

theorem Move.polls (h : Move s p s' p') : s'.polls = s.polls := by cases h <;> rfl

theorem Move.nextFlow (h : Move s p s' p') : s'.nextFlow = s.nextFlow := by cases h <;> rfl

theorem Move.refreshes (h : Move s p s' p') : s'.refreshes = s.refreshes := by cases h <;> rfl

theorem lookup_setFlow_ne {g : Flow → Flow} (h : k ≠ id) : (s.setFlow id g).flows.lookup k = s.flows.lookup k := by
  rw [lookup_setFlow, if_neg h]

/-- A poll leaves the flows that it does not hold. -/
theorem Move.leaves (h : Move s p s' p') (hk : p.holds ≠ some k) (hk' : p'.holds ≠ some k) :
    Leaves (s.flows.lookup k) (s'.flows.lookup k) := by
  cases h with
  | refused id owner time flows hleaves => exact hleaves k
  | claimed id owner time f p' hf hlive hp =>
    refine .inl (lookup_setFlow_ne ?_)
    rintro rfl
    rcases hp with ⟨_, rfl⟩ | ⟨_, -, rfl⟩ <;> exact hk' rfl
  | authorized id | completed id | released id =>
    refine .inl (lookup_setFlow_ne ?_)
    rintro rfl
    exact hk rfl
  | _ => exact .inl rfl

/-- A flow that is over stays as it is. -/
theorem Move.over (h : Move s p s' p') : Over (s.flows.lookup k) (s'.flows.lookup k) := by
  intro hover
  have hset {id : FlowId} {g : Flow → Flow} (h : ∀ f, s.flows.lookup id = some f → f.state.live = false → g f = f) :
      (s.setFlow id g).flows.lookup k = s.flows.lookup k := by
    rw [lookup_setFlow]
    split
    next heq =>
      subst heq
      cases hf : s.flows.lookup k with
      | none => rfl
      | some f => rw [Option.map_some, h f hf (hover f hf)]
    next => rfl
  have hlive {id : FlowId} {f : Flow} {g : Flow → Flow} (hf : s.flows.lookup id = some f) (hlive : f.state.live = true) :
      (s.setFlow id g).flows.lookup k = s.flows.lookup k := by
    refine hset fun f' hf' hdead => ?_
    rw [hf] at hf'
    cases hf'
    rw [hdead] at hlive
    cases hlive
  cases h with
  | refused id owner time flows hleaves => exact (hleaves k).over hover
  | claimed id owner time f p' hf hstate hp => exact .inl (hlive hf hstate)
  | authorized id c f hf hstate => exact .inl (hlive hf (by rw [hstate]; rfl))
  | completed id tokens f hf hstate hlock => exact .inl (hlive hf (by rcases hstate with hstate | hstate <;> rw [hstate] <;> rfl))
  | released id r =>
    refine .inl (hset fun f hf hdead => if_neg ?_)
    intro hgo
    rw [Bool.or_eq_true, decide_eq_true_eq, decide_eq_true_eq] at hgo
    rcases hgo with hstate | hstate <;> (rw [hstate] at hdead; cases hdead)
  | _ => exact .inl rfl

/-! ## The steps of a run -/

/-- A step that is not a poll's. -/
structure Aside (s s' : State) : Prop where
  leaves : ∀ k, k < s.nextFlow → Leaves (s.flows.lookup k) (s'.flows.lookup k)
  fresh : ∀ k f, s'.flows.lookup k = some f → s.nextFlow ≤ k →
    (∃ f₀, s.flows.lookup k = some f₀) ∨ k < s'.nextFlow ∧ f.state = .pending ∧ f.code = none
  nextFlow : s.nextFlow ≤ s'.nextFlow
  issued : s'.issued = s.issued
  exchanged : s'.exchanged = s.exchanged
  stored : s'.stored = s.stored
  keeps : ∀ (j : Nat) q, s.polls[j]? = some q → s'.polls[j]? = some q
  polls : ∀ (j : Nat) q, s'.polls[j]? = some q → s.polls[j]? = some q ∨ ∃ id owner time, q = .claim id owner time

theorem Aside.of_flows {flows : Table FlowId Flow} {credential : Option Credential} {lock : Option Nat} {refreshes : List Refresh}
    {redeemed : List (Credential × Credential)} {now : Nat}
    (h : ∀ k, Leaves (s.flows.lookup k) (flows.lookup k)) : Aside s { s with now, flows, credential, lock, refreshes, redeemed } where
  leaves k _ := h k
  fresh k f hf _ := by
    dsimp only at hf
    rcases h k with heq | heq | ⟨f₀, _, heq, -⟩
    · exact .inl ⟨f, heq ▸ hf⟩
    · rw [heq] at hf
      cases hf
    · exact .inl ⟨f₀, heq⟩
  nextFlow := le_rfl
  issued := rfl
  exchanged := rfl
  stored := rfl
  keeps _ _ h := h
  polls _ _ h := .inl h

theorem Aside.createFlow : Aside s (s.createFlow owner n) where
  leaves _ hk := createFlow_leaves hk
  fresh k f hf _ := by
    rcases createFlow_lookup hf with ⟨rfl, hfresh⟩ | ⟨f₀, hf₀, -⟩
    · exact .inr ⟨Nat.lt_succ_self _, hfresh⟩
    · exact .inl ⟨f₀, hf₀⟩
  nextFlow := Nat.le_succ _
  issued := rfl
  exchanged := rfl
  stored := rfl
  keeps _ _ h := h
  polls _ _ h := .inl h

theorem Aside.poll : Aside s { s with polls := s.polls ++ [.claim id owner s.now] } where
  leaves _ _ := .inl rfl
  fresh _ f hf _ := .inl ⟨f, hf⟩
  nextFlow := le_rfl
  issued := rfl
  exchanged := rfl
  stored := rfl
  keeps _ _ h := Agents.getElem?_append_some.mpr (.inl h)
  polls _ _ h := (Agents.getElem?_append_some.mp h).imp_right fun ⟨_, h⟩ => ⟨id, owner, s.now, h⟩

theorem refresh_flows (h : s.refresh i r answer = some (s', r')) :
    ∃ credential lock redeemed, s' = { s with credential, lock, redeemed } := by
  unfold State.refresh at h
  split at h
  · cases h
    exact ⟨_, _, _, rfl⟩
  · split at h
    · cases h
    split at h
    · cases h
      exact ⟨_, _, _, rfl⟩
    split at h
    · cases h
      exact ⟨_, _, _, rfl⟩
    · cases h
      exact ⟨_, _, _, rfl⟩
  · split at h
    · cases h
      exact ⟨_, _, _, rfl⟩
    · cases h
      exact ⟨_, _, _, rfl⟩
  · cases h
    exact ⟨_, _, _, rfl⟩
  · cases h
    exact ⟨_, _, _, rfl⟩
  · cases h

/-- A step is a poll's, or leaves the polls and the flows that they hold. -/
theorem step_cases {l : Label} (h : step s l = some s') : Aside s s' ∨
    ∃ i answer p p' s₁, l = .goOn i answer ∧ s.polls[i]? = some p ∧ s.poll p answer = some (s₁, p') ∧
      s' = { s₁ with polls := s₁.polls.set i p' } := by
  have hrefl (k : FlowId) : Leaves (s.flows.lookup k) (s.flows.lookup k) := .inl rfl
  cases l with
  | tick ms =>
    cases h
    exact .inl (.of_flows hrefl)
  | createFlow owner n =>
    cases h
    exact .inl .createFlow
  | cancelFlow id owner =>
    cases h
    exact .inl (.of_flows fun _ => cancelFlow_leaves)
  | disconnect =>
    rw [step] at h
    split at h
    · cases h
    · cases h
      exact .inl (.of_flows fun _ => disconnect_leaves)
  | poll id owner =>
    cases h
    exact .inl .poll
  | goOn i answer =>
    rw [step] at h
    split at h
    · cases h
    next p hp =>
      obtain ⟨⟨s₁, p'⟩, hpoll, rfl⟩ := Option.map_eq_some_iff.mp h
      exact .inr ⟨i, answer, p, p', s₁, rfl, hp, hpoll, rfl⟩
  | getAccess force =>
    cases h
    exact .inl (.of_flows hrefl)
  | refresh i answer =>
    rw [step] at h
    split at h
    · cases h
    next r hr =>
      obtain ⟨⟨s₁, r'⟩, hrefresh, rfl⟩ := Option.map_eq_some_iff.mp h
      obtain ⟨credential, lock, redeemed, rfl⟩ := refresh_flows hrefresh
      exact .inl (.of_flows hrefl)

end MailExpert.Codex
