import MailExpert.FlagStores.Order

/-!
# Every unit settles

A unit waits for earlier units only, so of the units that are not over the first one is the turn of its
call and everything it waits for is over: it can start, be skipped, or wait for a tail that resolves. Every
step but a new call uses up part of what its unit has left (`State.fuel`).
-/

namespace MailExpert.FlagStores

variable {s s' : State} {i j k p : Nat} {u v u' : FlagUnit} {c c' : Call} {l : Label} {x : Letter}

structure Scheduled (s : State) : Prop where
  prevs {i p : Nat} {u : FlagUnit} : s.units[i]? = some u → p ∈ u.prevs → p < i
  tails {x : Letter} {j : Nat} : s.chains x = some j → j < s.units.length
  /-- a unit is over when its call is past it -/
  call {i : Nat} {u : FlagUnit} : s.units[i]? = some u → ∃ c, s.calls[u.call]? = some c ∧ i < c.stop ∧
    (u.over ↔ i < c.next) ∧ (u.phase = .running → i = c.next)
  /-- what a call has left are its own units -/
  left {k i : Nat} {c : Call} : s.calls[k]? = some c → c.next ≤ i → i < c.stop →
    ∃ u, s.units[i]? = some u ∧ u.call = k

theorem step_call {l : UnitLabel} (h : u.step l = some u') : u'.call = u.call ∧ u'.prevs = u.prevs ∧
    (u'.over ↔ u.over) ∧ (u'.phase = .running → u.phase = .running) := by
  cases l with
  | attempt =>
    rw [FlagUnit.step, Option.ite_none_right_eq_some] at h
    cases h.2
    exact ⟨rfl, rfl, Iff.rfl, id⟩
  | send =>
    rw [FlagUnit.step, Option.ite_none_right_eq_some] at h
    cases h.2
    exact ⟨rfl, rfl, Iff.rfl, id⟩
  | settleAttempt =>
    rw [FlagUnit.step, Option.ite_none_right_eq_some] at h
    cases h.2
    exact ⟨rfl, rfl, Iff.rfl, id⟩
  | giveUp =>
    rw [FlagUnit.step, Option.ite_none_right_eq_some] at h
    cases h.2
    exact ⟨rfl, rfl, Iff.rfl, id⟩
  | tail =>
    rw [FlagUnit.step, Option.ite_none_right_eq_some] at h
    obtain ⟨⟨hphase, -⟩, h⟩ := h
    cases h
    exact ⟨rfl, rfl, ⟨fun _ => .inl hphase, fun _ => .inr rfl⟩, fun hp => by cases hp⟩
  | tailTimeout =>
    rw [FlagUnit.step, Option.ite_none_right_eq_some] at h
    obtain ⟨⟨hphase, -⟩, h⟩ := h
    cases h
    exact ⟨rfl, rfl, ⟨fun _ => .inl hphase, fun _ => .inr rfl⟩, fun hp => by cases hp⟩

theorem Scheduled.set {chains : Letter → Option Nat} (h : Scheduled s) (hu : s.units[i]? = some u)
    (hcall : u'.call = u.call) (hprevs : u'.prevs = u.prevs) (hover : u'.over ↔ u.over)
    (hrun : u'.phase = .running → u.phase = .running ∨ ∃ c, s.turn i = some (u, c))
    (hchains : ∀ x j, chains x = some j → s.chains x = some j) :
    Scheduled { s with units := s.units.set i u', chains := chains } := by
  refine ⟨?_, ?_, ?_, ?_⟩
  · intro j p v hj hp
    obtain ⟨rfl, rfl⟩ | ⟨-, hj⟩ := (Agents.getElem?_set_some hu).mp hj
    · exact h.prevs hu (hprevs ▸ hp)
    · exact h.prevs hj hp
  · intro x j hx
    rw [List.length_set]
    exact h.tails (hchains x j hx)
  · intro j v hj
    obtain ⟨rfl, rfl⟩ | ⟨-, hj⟩ := (Agents.getElem?_set_some hu).mp hj
    · obtain ⟨c, hc, hstop, hnext, hturn⟩ := h.call hu
      refine ⟨c, hcall ▸ hc, hstop, hover.trans hnext, fun hp => ?_⟩
      obtain hp | ⟨c', hc'⟩ := hrun hp
      · exact hturn hp
      · obtain ⟨-, hc', heq⟩ := turn_iff.mp hc'
        cases hc.symm.trans hc'
        exact heq.symm
    · exact h.call hj
  · intro k j c hk hnext hstop
    obtain ⟨v, hv, hvk⟩ := h.left hk hnext hstop
    by_cases hij : i = j
    · subst hij
      cases hu.symm.trans hv
      exact ⟨u', (Agents.getElem?_set_some hu).mpr (.inl ⟨rfl, rfl⟩), hcall.trans hvk⟩
    · exact ⟨v, (Agents.getElem?_set_some hu).mpr (.inr ⟨hij, hv⟩), hvk⟩

theorem Scheduled.advance (h : Scheduled s) (hturn : s.turn i = some (u, c)) (hnext : c'.next = c.next + 1)
    (hstop : c'.stop = c.stop) : Scheduled { s with
      units := s.units.set i { u with phase := .done }, calls := s.calls.set u.call c' } := by
  obtain ⟨hu, hc, rfl⟩ := turn_iff.mp hturn
  refine ⟨?_, ?_, ?_, ?_⟩
  · intro j p v hj hp
    obtain ⟨rfl, rfl⟩ | ⟨-, hj⟩ := (Agents.getElem?_set_some hu).mp hj
    · exact h.prevs hu hp
    · exact h.prevs hj hp
  · intro x j hx
    rw [List.length_set]
    exact h.tails hx
  · intro j v hj
    obtain ⟨rfl, rfl⟩ | ⟨hne, hj⟩ := (Agents.getElem?_set_some hu).mp hj
    · obtain ⟨c₀, hc₀, hlt, -⟩ := h.call hu
      cases hc.symm.trans hc₀
      refine ⟨c', (Agents.getElem?_set_some hc).mpr (.inl ⟨rfl, rfl⟩), hstop ▸ hlt, ?_, fun hp => ?_⟩
      · rw [hnext]
        exact ⟨fun _ => Nat.lt_succ_self _, fun _ => .inl rfl⟩
      · cases hp
    · obtain ⟨c₀, hc₀, hlt, hover, hrun⟩ := h.call hj
      by_cases hk : u.call = v.call
      · rw [← hk] at hc₀
        cases hc.symm.trans hc₀
        refine ⟨c', (Agents.getElem?_set_some hc).mpr (.inl ⟨hk, rfl⟩), hstop ▸ hlt, ?_, fun hp => ?_⟩
        · rw [hover, hnext]
          omega
        · exact absurd (hrun hp).symm hne
      · exact ⟨c₀, (Agents.getElem?_set_some hc).mpr (.inr ⟨hk, hc₀⟩), hlt, hover, hrun⟩
  · intro k j c₀ hk hle hlt
    obtain ⟨rfl, rfl⟩ | ⟨hne, hk⟩ := (Agents.getElem?_set_some hc).mp hk
    · rw [hnext] at hle
      obtain ⟨v, hv, hvk⟩ := h.left hc (Nat.le_of_succ_le hle) (hstop ▸ hlt)
      exact ⟨v, (Agents.getElem?_set_some hu).mpr (.inr ⟨by omega, hv⟩), hvk⟩
    · obtain ⟨v, hv, hvk⟩ := h.left hk hle hlt
      by_cases hij : c.next = j
      · subst hij
        cases hu.symm.trans hv
        exact absurd hvk hne
      · exact ⟨v, (Agents.getElem?_set_some hu).mpr (.inr ⟨hij, hv⟩), hvk⟩

theorem Scheduled.acts (h : Scheduled s) (hacts : Acts s l s') : Scheduled s' := by
  cases hacts with
  | @start i u c hturn hphase =>
    refine h.set (turn_iff.mp hturn).1 rfl rfl ?_ (fun _ => .inr ⟨c, hturn⟩) fun _ _ hx => hx
    constructor
    · rintro (hp | hp) <;> cases hp
    · rintro (hp | hp) <;> cases hphase.symm.trans hp
  | skip hturn => exact h.advance hturn rfl rfl
  | @answer i u c outcome hturn => exact h.advance hturn (by cases outcome <;> rfl) (by cases outcome <;> rfl)
  | inside hu hstep =>
    obtain ⟨hcall, hprevs, hover, hrun⟩ := step_call hstep
    exact h.set hu hcall hprevs hover (fun hp => .inl (hrun hp)) fun _ _ hx => hx
  | clear hu =>
    refine h.set hu rfl rfl Iff.rfl .inl fun x j hx => ?_
    rw [ite_eq_iff] at hx
    rcases hx with ⟨-, hx⟩ | ⟨-, hx⟩
    · cases hx
    · exact hx

structure Reserves (s t : State) (call : Nat) (added : List FlagUnit) : Prop where
  units : t.units = s.units ++ added
  calls : t.calls = s.calls
  fresh {u : FlagUnit} : u ∈ added → u.call = call ∧ u.phase = .reserved
  prevs {i p : Nat} {u : FlagUnit} : t.units[i]? = some u → p ∈ u.prevs → p < i
  tails {x : Letter} {j : Nat} : t.chains x = some j → j < t.units.length

theorem foldl_reserveUnit {call : Nat} {cs : List Chunk} {t : State} {added : List FlagUnit}
    (h : Reserves s t call added) :
    ∃ added', Reserves s (cs.foldl (reserveUnit call) t) call added' := by
  induction cs generalizing t added with
  | nil => exact ⟨added, h⟩
  | cons chunk cs ih =>
    refine @ih (reserveUnit call t chunk) (added ++ [chunk.unit call t.chains]) ⟨?_, h.calls, ?_, ?_, ?_⟩
    · rw [reserveUnit, h.units, List.append_assoc]
    · intro u hu
      rcases List.mem_append.mp hu with hu | hu
      · exact h.fresh hu
      · cases List.mem_singleton.mp hu
        exact ⟨rfl, rfl⟩
    · intro j p v hj hp
      obtain hj | ⟨rfl, rfl⟩ := getElem?_snoc_some.mp hj
      · exact h.prevs hj hp
      · obtain ⟨x, -, hx⟩ := List.mem_filterMap.mp hp
        exact h.tails hx
    · intro x j hx
      have hx : (if x ∈ chunk.keys then some t.units.length else t.chains x) = some j := hx
      have hlen : (reserveUnit call t chunk).units.length = t.units.length + 1 := List.length_append
      rw [hlen]
      split at hx
      · cases hx
        exact Nat.lt_succ_self _
      · exact Nat.lt_succ_of_lt (h.tails hx)

theorem Scheduled.setFlagsGroups {groups : List (String × List Nat)} {flag : String} {value : Bool}
    (h : Scheduled s) : Scheduled (setFlagsGroups s groups flag value) := by
  have hstart : Reserves s s s.calls.length [] :=
    ⟨(List.append_nil _).symm, rfl, fun hu => absurd hu List.not_mem_nil, h.prevs, h.tails⟩
  obtain ⟨added, hr⟩ := @foldl_reserveUnit s s.calls.length (chunks groups) s [] hstart
  have hlen : (reserveFlagStores s s.calls.length groups).units.length = s.units.length + added.length := by
    rw [reserveFlagStores, hr.units, List.length_append]
  refine ⟨hr.prevs, hr.tails, ?_, ?_⟩
  · intro j v hj
    have hj : (s.units ++ added)[j]? = some v := hr.units ▸ hj
    rw [List.getElem?_append] at hj
    split at hj
    next hlt =>
      obtain ⟨c, hc, hrest⟩ := h.call hj
      exact ⟨c, getElem?_snoc_some.mpr (.inl hc), hrest⟩
    next hge =>
      obtain ⟨hcall, hphase⟩ := hr.fresh (List.mem_of_getElem? hj)
      have hlt := lt_of_getElem? hj
      refine ⟨_, getElem?_snoc_some.mpr (.inr ⟨hcall, rfl⟩), ?_, ?_, fun hp => ?_⟩
      · dsimp only
        omega
      · dsimp only
        constructor
        · rintro (hp | hp) <;> cases hphase.symm.trans hp
        · omega
      · cases hphase.symm.trans hp
  · intro k j c hk hle hlt
    obtain hk | ⟨rfl, rfl⟩ := getElem?_snoc_some.mp hk
    · obtain ⟨v, hv, hvk⟩ := h.left hk hle hlt
      refine ⟨v, ?_, hvk⟩
      show (reserveFlagStores s s.calls.length groups).units[j]? = some v
      rw [reserveFlagStores, hr.units, List.getElem?_append_left (lt_of_getElem? hv), hv]
    · dsimp only at hle hlt
      have hj : j - s.units.length < added.length := by omega
      refine ⟨added[j - s.units.length], ?_, (hr.fresh (List.getElem_mem hj)).1⟩
      show (reserveFlagStores s s.calls.length groups).units[j]? = some _
      rw [reserveFlagStores, hr.units, List.getElem?_append_right hle, List.getElem?_eq_getElem hj]

theorem scheduled : system.Invariant TransitionSystem.anyStep Scheduled where
  init {s} h := by
    obtain ⟨hunits, hcalls, hchains⟩ := h
    refine ⟨fun {i p u} hu => ?_, fun {x j} hx => ?_, fun {i u} hu => ?_, fun {k i c} hk => ?_⟩
    · rw [hunits] at hu
      cases hu
    · rw [hchains] at hx
      cases hx
    · rw [hunits] at hu
      cases hu
    · rw [hcalls] at hk
      cases hk
  step {s l s'} h _ hstep := by
    obtain ⟨groups, flag, value, -, rfl⟩ | hacts := step_cases hstep
    · exact h.setFlagsGroups
    · exact h.acts hacts

/-- Of the units that are not over, it is the first one's turn. -/
theorem Scheduled.turn (h : Scheduled s) (hu : s.units[i]? = some u) (hnot : ¬u.over)
    (hfirst : ∀ (j : Nat) (v : FlagUnit), j < i → s.units[j]? = some v → v.over) : ∃ c, s.turn i = some (u, c) := by
  obtain ⟨c, hc, hstop, hover, -⟩ := h.call hu
  have hle : c.next ≤ i := not_lt.mp fun hlt => hnot (hover.mpr hlt)
  rcases hle.eq_or_lt with heq | hlt
  · exact ⟨c, turn_iff.mpr ⟨hu, hc, heq⟩⟩
  obtain ⟨v, hv, hvk⟩ := h.left hc le_rfl (hlt.trans hstop)
  obtain ⟨c', hc', -, hover', -⟩ := h.call hv
  rw [hvk] at hc'
  cases hc.symm.trans hc'
  exact absurd (hover'.mp (hfirst c.next v hlt hv)) (lt_irrefl _)

/-- The steps of the calls themselves, and the bounded waits for a tail. -/
def Label.waits : Label → Bool
  | .start _ | .skip _ | .inside _ .tail | .inside _ .tailTimeout => true
  | _ => false

theorem tail_enabled (h : s.units[p]? = some u) (hover : u.over)
    (hres : s.resolved p = false) : ∃ l, l.waits = true ∧ s.step l ≠ none := by
  have hdone : u.phase = .done := by
    rcases hover with hp | hp
    · exact hp
    · rw [resolved_iff.mpr ⟨u, h, hp⟩] at hres
      cases hres
  by_cases hf : u.flight = .sent
  · refine ⟨.inside p .tailTimeout, rfl, ?_⟩
    simp [State.step, h, FlagUnit.step, hdone, hf]
  · refine ⟨.inside p .tail, rfl, ?_⟩
    simp [State.step, h, FlagUnit.step, hdone, hf]

/-- Where no store runs and no call can go on, every unit has settled. -/
theorem Scheduled.settled (h : Scheduled s) (hidle : ∀ (i : Nat) (u : FlagUnit), s.units[i]? = some u → u.phase ≠ .running)
    (hstuck : ∀ l, l.waits = true → s.step l = none) : ∀ (i : Nat) (u : FlagUnit), s.units[i]? = some u → u.over := by
  intro i
  induction i using Nat.strong_induction_on with
  | _ i ih =>
    intro u hu
    by_contra hnot
    obtain ⟨c, hturn⟩ := h.turn hu hnot fun j v hlt hv => ih j hlt v hv
    have hreserved : u.phase = .reserved := by
      cases hp : u.phase with
      | reserved => rfl
      | running => exact absurd hp (hidle i u hu)
      | done => exact absurd (.inl hp) hnot
      | resolved => exact absurd (.inr hp) hnot
    by_cases hskip : c.skips u.group = true
    · have hnone := hstuck (.skip i) rfl
      rw [State.step, hturn, Option.bind_some] at hnone
      simp [hreserved, hskip] at hnone
    by_cases hprevs : u.prevs.all s.resolved = true
    · have hnone := hstuck (.start i) rfl
      rw [State.step, hturn, Option.bind_some] at hnone
      dsimp only at hnone
      rw [if_pos ⟨hreserved, by simpa using hskip, hprevs⟩] at hnone
      cases hnone
    -- a tail it waits for belongs to an earlier unit, which is over
    obtain ⟨p, hp, hres⟩ := List.all_eq_false.mp (by simpa using hprevs)
    have hlt := h.prevs hu hp
    have hv := List.getElem?_eq_getElem (hlt.trans (lt_of_getElem? hu))
    obtain ⟨l, hl, hsome⟩ := tail_enabled hv (ih p hlt _ hv) (by simpa using hres)
    exact hsome (hstuck l hl)

/-- A store that runs can be answered, or gives up on its attempt. -/
theorem Scheduled.running_enabled (h : Scheduled s) (hu : s.units[i]? = some u) (hrun : u.phase = .running) :
    ∃ l, l.internal = true ∧ s.step l ≠ none := by
  obtain ⟨c, hc, -, -, hnext⟩ := h.call hu
  have hturn : s.turn i = some (u, c) := turn_iff.mpr ⟨hu, hc, (hnext hrun).symm⟩
  by_cases hdone : u.flight = .none ∨ u.flight = .settled ∨ u.expired = true
  · refine ⟨.answer i .stored, rfl, ?_⟩
    rw [State.step, hturn, Option.bind_some]
    simp [hrun, hdone]
  · refine ⟨.inside i .giveUp, rfl, ?_⟩
    have hout : u.flight = .pending ∨ u.flight = .sent := by
      cases hf : u.flight with
      | none => exact absurd (.inl hf) hdone
      | pending => exact .inl rfl
      | sent => exact .inr rfl
      | settled => exact absurd (.inr (.inl hf)) hdone
    have hexp : u.expired = false := by
      by_contra hexp
      exact hdone (.inr (.inr (by simpa using hexp)))
    simp [State.step, hu, FlagUnit.step, hrun, hout, hexp]

/-! ## Every run of steps ends -/

def Phase.left : Phase → Nat
  | .reserved => 3
  | .running => 2
  | .done => 1
  | .resolved => 0

def Flight.left : Flight → Nat
  | .none => 3
  | .pending => 2
  | .sent => 1
  | .settled => 0

/-- An upper bound of the steps left in a unit. -/
def FlagUnit.fuel (u : FlagUnit) : Nat :=
  u.phase.left + u.flight.left + (if u.expired then 0 else 1) + if u.cleared then 0 else 1

def State.fuel (s : State) : Nat := (s.units.map FlagUnit.fuel).sum

theorem sum_set_lt {α : Type} {l : List α} {f : α → Nat} {a b : α} (h : l[i]? = some a) (hlt : f b < f a) :
    ((l.set i b).map f).sum < (l.map f).sum := by
  induction l generalizing i with
  | nil => cases h
  | cons x l ih =>
    cases i with
    | zero =>
      cases h
      simpa using hlt
    | succ i =>
      have := ih (List.getElem?_cons_succ ▸ h)
      simpa using this

theorem fuel_step {l : UnitLabel} (h : u.step l = some u') : u'.fuel < u.fuel := by
  cases l with
  | attempt =>
    rw [FlagUnit.step, Option.ite_none_right_eq_some] at h
    obtain ⟨⟨-, -, hf⟩, h⟩ := h
    cases h
    simp [FlagUnit.fuel, hf, Flight.left]
  | send =>
    rw [FlagUnit.step, Option.ite_none_right_eq_some] at h
    obtain ⟨⟨hf, -⟩, h⟩ := h
    cases h
    simp [FlagUnit.fuel, hf, Flight.left]
  | settleAttempt =>
    rw [FlagUnit.step, Option.ite_none_right_eq_some] at h
    obtain ⟨hf, h⟩ := h
    cases h
    rcases hf with hf | hf <;> simp [FlagUnit.fuel, hf, Flight.left]
  | giveUp =>
    rw [FlagUnit.step, Option.ite_none_right_eq_some] at h
    obtain ⟨⟨-, -, he⟩, h⟩ := h
    cases h
    simp [FlagUnit.fuel, he]
  | tail =>
    rw [FlagUnit.step, Option.ite_none_right_eq_some] at h
    obtain ⟨⟨hp, -⟩, h⟩ := h
    cases h
    simp [FlagUnit.fuel, hp, Phase.left]
  | tailTimeout =>
    rw [FlagUnit.step, Option.ite_none_right_eq_some] at h
    obtain ⟨⟨hp, -⟩, h⟩ := h
    cases h
    simp [FlagUnit.fuel, hp, Phase.left]

theorem Acts.fuel (h : Acts s l s') : s'.fuel < s.fuel := by
  cases h with
  | start hturn hp =>
    refine sum_set_lt (turn_iff.mp hturn).1 ?_
    simp [FlagUnit.fuel, hp, Phase.left]
  | skip hturn hp =>
    refine sum_set_lt (turn_iff.mp hturn).1 ?_
    simp [FlagUnit.fuel, hp, Phase.left]
  | answer hturn hp =>
    refine sum_set_lt (turn_iff.mp hturn).1 ?_
    simp [FlagUnit.fuel, hp, Phase.left]
  | inside hu hstep => exact sum_set_lt hu (fuel_step hstep)
  | clear hu _ hcleared =>
    refine sum_set_lt hu ?_
    simp [FlagUnit.fuel, hcleared]

theorem length_le_fuel {ls : List Label} (hls : ∀ l ∈ ls, l.internal = true)
    (h : system.exec TransitionSystem.anyStep s ls = some s') : ls.length ≤ s.fuel := by
  induction ls generalizing s with
  | nil => exact Nat.zero_le _
  | cons l ls ih =>
    obtain ⟨t, hstep, hrest⟩ := TransitionSystem.exec_anyStep_cons h
    have hle := ih (fun l' hl' => hls l' (List.mem_cons_of_mem _ hl')) hrest
    obtain ⟨groups, flag, value, rfl, -⟩ | hacts := step_cases hstep
    · cases hls _ List.mem_cons_self
    · exact Nat.succ_le_of_lt (hle.trans_lt hacts.fuel)

/-- What the flag stores of an account promise in a state and of the steps from it. -/
structure Sound (s : State) : Prop where
  /-- a store begins once every earlier unit on a letter of it is over and its store with it -/
  order {i j : Nat} {u v : FlagUnit} {x : Letter} : i < j → s.units[i]? = some u → s.units[j]? = some v →
    x ∈ u.keys → x ∈ v.keys → v.started = true → u.over ∧ ¬u.storing
  /-- stores on one letter never run at the same time -/
  apart {i j : Nat} {u v : FlagUnit} {x : Letter} : i ≠ j → s.units[i]? = some u → s.units[j]? = some v →
    x ∈ u.keys → x ∈ v.keys → ¬(u.storing ∧ v.storing)
  /-- once no store runs and no call can go on, every unit has settled -/
  settled : (∀ (i : Nat) (u : FlagUnit), s.units[i]? = some u → u.phase ≠ .running) → (∀ l, l.waits = true → s.step l = none) →
    ∀ (i : Nat) (u : FlagUnit), s.units[i]? = some u → u.over
  /-- only a state with every unit settled has no step but a new call -/
  live : (∀ l, l.internal = true → s.step l = none) → ∀ (i : Nat) (u : FlagUnit), s.units[i]? = some u → u.over
  /-- without new calls every run ends -/
  ends {ls : List Label} {t : State} : (∀ l ∈ ls, l.internal = true) →
    system.exec TransitionSystem.anyStep s ls = some t → ls.length ≤ s.fuel

theorem FlagUnit.Ok.started_of_storing (h : u.Ok) (hs : u.storing) : u.started = true := by
  rcases hs with hp | ⟨hf, -⟩
  · exact h.running hp
  · exact h.flight (by rw [hf]; decide)

theorem Ordered.order (h : Ordered s) (hij : i < j) (hi : s.units[i]? = some u) (hj : s.units[j]? = some v)
    (hu : x ∈ u.keys) (hv : x ∈ v.keys) (hstarted : v.started = true) : u.over ∧ ¬u.storing := by
  obtain ⟨u', hu', hphase⟩ := resolved_iff.mp (h.earlier hj (.inl hstarted) hij hi hu hv)
  cases hi.symm.trans hu'
  exact ⟨.inr hphase, (h.ok hi).not_storing hphase⟩

theorem Scheduled.live (h : Scheduled s) (hstuck : ∀ l, l.internal = true → s.step l = none) :
    ∀ (i : Nat) (u : FlagUnit), s.units[i]? = some u → u.over := by
  refine h.settled (fun i u hu hrun => ?_) fun l hl => hstuck l ?_
  · obtain ⟨l, hl, hsome⟩ := h.running_enabled hu hrun
    exact hsome (hstuck l hl)
  · cases l with
    | call => cases hl
    | start => rfl
    | skip => rfl
    | answer => rfl
    | inside => rfl
    | clear => rfl

/-- Where a unit is skipped only once the tails it found have resolved, the stores keep call order. -/
theorem prompt_sound (h : system.ReachesUnder Prompt s) : Sound s := by
  have hordered := ordered.reachesUnder h
  have hscheduled := scheduled.reachable h.reachable
  refine ⟨hordered.order, ?_, hscheduled.settled, hscheduled.live, length_le_fuel⟩
  rintro i j u v x hne hi hj hu hv ⟨hsu, hsv⟩
  rcases Nat.lt_or_gt_of_ne hne with hlt | hlt
  · exact (hordered.order hlt hi hj hu hv ((hordered.ok hj).started_of_storing hsv)).2 hsu
  · exact (hordered.order hlt hj hi hv hu ((hordered.ok hi).started_of_storing hsu)).2 hsv

def quiet : State := { units := [], calls := [], chains := fun _ => none }

theorem quiet_init : system.init quiet := ⟨rfl, rfl, rfl⟩

theorem prompt_sound_click : ∃ s, system.ReachesUnder Prompt s ∧ Sound s ∧
    s.units.map (·.phase) = [.resolved, .running] := by
  have htrace : (system.exec Prompt quiet [.call [("INBOX", [1])] "\\Seen" true, .start 0,
      .call [("INBOX", [1, 2])] "\\Seen" false, .answer 0 .stored, .inside 0 .tail, .start 1]).any
      (fun s => s.units.map (·.phase) = [.resolved, .running]) = true := by decide
  obtain ⟨s, hs, hp⟩ := TransitionSystem.reaches_of_exec quiet_init htrace
  exact ⟨s, hs, prompt_sound hs, of_decide_eq_true hp⟩

/-- A store on letter 1 runs. A bulk call over two folders holds letter 1 in its second group and is
skipped there when its first group fails. The next store on letter 1 starts while the first one runs. -/
theorem skipped_overtaken : ¬∀ s, system.Reachable s → Sound s := by
  intro h
  have htrace : (system.exec TransitionSystem.anyStep quiet [.call [("INBOX", [1])] "\\Seen" true, .start 0,
      .call [("Archive", [2]), ("INBOX", [1])] "\\Seen" true, .start 1, .answer 1 (.failed true), .skip 2,
      .inside 2 .tail, .call [("INBOX", [1])] "\\Seen" false, .start 3]).any
      (fun s => s.units[0]?.any (fun u => u.phase = .running && u.keys = [("INBOX", 1)]) &&
        s.units[3]?.any fun u => u.phase = .running && u.keys = [("INBOX", 1)]) = true := by decide
  obtain ⟨s, hs, hp⟩ := TransitionSystem.reaches_of_exec quiet_init htrace
  rw [Bool.and_eq_true, Option.any_eq_true, Option.any_eq_true] at hp
  obtain ⟨⟨u, hu, hpu⟩, v, hv, hpv⟩ := hp
  simp only [Bool.and_eq_true, decide_eq_true_eq] at hpu hpv
  have hx : (("INBOX", 1) : Letter) ∈ [(("INBOX", 1) : Letter)] := List.mem_singleton_self _
  exact (h s hs).apart (by decide) hu hv (hpu.2 ▸ hx) (hpv.2 ▸ hx) ⟨.inl hpu.1, .inl hpv.1⟩

end MailExpert.FlagStores
