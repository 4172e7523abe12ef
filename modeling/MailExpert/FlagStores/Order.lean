import MailExpert.FlagStores.Chains
import MailExpert.Lib.Agents

/-!
# Stores on a letter run in call order

A tail resolves once its unit is over, and a unit that ran waited for the tails it found. A unit that is
skipped waits for nothing, so its tail says that the earlier stores on its letters are over only if they are
(`Prompt`). Then a resolved tail stands for every earlier unit on its letters (`Ordered.earlier`).
-/

namespace MailExpert.FlagStores

variable {s s' : State} {i j k n p : Nat} {u v u' : FlagUnit} {c : Call} {l : Label} {x : Letter}

theorem turn_iff : s.turn i = some (u, c) ↔
    s.units[i]? = some u ∧ s.calls[u.call]? = some c ∧ c.next = i := by
  rw [State.turn, Option.bind_eq_some_iff]
  constructor
  · rintro ⟨u', hu', h⟩
    obtain ⟨c', hc', h⟩ := Option.bind_eq_some_iff.mp h
    rw [Option.ite_none_right_eq_some] at h
    obtain ⟨hnext, h⟩ := h
    cases h
    exact ⟨hu', hc', hnext⟩
  · rintro ⟨hu, hc, hnext⟩
    exact ⟨u, hu, by rw [hc, Option.bind_some, if_pos hnext]⟩

/-- What a step of a call or of a store finds and does. -/
inductive Acts (s : State) : Label → State → Prop
  | start {i : Nat} {u : FlagUnit} {c : Call} : s.turn i = some (u, c) → u.phase = .reserved →
      c.skips u.group = false → (∀ p ∈ u.prevs, s.resolved p = true) →
      Acts s (.start i) { s with units := s.units.set i { u with phase := .running, started := true } }
  | skip {i : Nat} {u : FlagUnit} {c : Call} : s.turn i = some (u, c) → u.phase = .reserved →
      c.skips u.group = true →
      Acts s (.skip i) { s with
        units := s.units.set i { u with phase := .done }, calls := s.calls.set u.call (c.skip u.group) }
  | answer {i : Nat} {u : FlagUnit} {c : Call} {outcome : Outcome} : s.turn i = some (u, c) →
      u.phase = .running → (u.flight = .none ∨ u.flight = .settled ∨ u.expired = true) →
      Acts s (.answer i outcome) { s with
        units := s.units.set i { u with phase := .done }
        calls := s.calls.set u.call (c.answer u.group outcome) }
  | inside {i : Nat} {u u' : FlagUnit} {l : UnitLabel} : s.units[i]? = some u → u.step l = some u' →
      Acts s (.inside i l) { s with units := s.units.set i u' }
  | clear {i : Nat} {u : FlagUnit} : s.units[i]? = some u → u.phase = .resolved → u.cleared = false →
      Acts s (.clear i) { s with
        units := s.units.set i { u with cleared := true }
        chains := fun k => if k ∈ u.keys ∧ s.chains k = some i then none else s.chains k }

theorem step_cases (h : s.step l = some s') :
    (∃ groups flag value, l = .call groups flag value ∧ s' = setFlagsGroups s groups flag value) ∨
      Acts s l s' := by
  cases l with
  | call groups flag value =>
    cases h
    exact .inl ⟨groups, flag, value, rfl, rfl⟩
  | start i =>
    obtain ⟨⟨u, c⟩, hturn, h⟩ := Option.bind_eq_some_iff.mp h
    rw [Option.ite_none_right_eq_some] at h
    obtain ⟨⟨hphase, hskip, hprevs⟩, h⟩ := h
    cases h
    exact .inr (.start hturn hphase hskip (List.all_eq_true.mp hprevs))
  | skip i =>
    obtain ⟨⟨u, c⟩, hturn, h⟩ := Option.bind_eq_some_iff.mp h
    rw [Option.ite_none_right_eq_some] at h
    obtain ⟨⟨hphase, hskip⟩, h⟩ := h
    cases h
    exact .inr (.skip hturn hphase hskip)
  | answer i outcome =>
    obtain ⟨⟨u, c⟩, hturn, h⟩ := Option.bind_eq_some_iff.mp h
    rw [Option.ite_none_right_eq_some] at h
    obtain ⟨⟨hphase, hflight⟩, h⟩ := h
    cases h
    exact .inr (.answer hturn hphase hflight)
  | inside i l =>
    obtain ⟨u, hu, h⟩ := Option.bind_eq_some_iff.mp h
    obtain ⟨u', hu', rfl⟩ := Option.map_eq_some_iff.mp h
    exact .inr (.inside hu hu')
  | clear i =>
    obtain ⟨u, hu, h⟩ := Option.bind_eq_some_iff.mp h
    rw [Option.ite_none_right_eq_some] at h
    obtain ⟨⟨hphase, hcleared⟩, h⟩ := h
    cases h
    exact .inr (.clear hu hphase hcleared)

/-! ## One unit -/

/-- What holds of a unit by itself. -/
structure FlagUnit.Ok (u : FlagUnit) : Prop where
  running : u.phase = .running → u.started = true
  reserved : u.phase = .reserved → u.started = false
  flight : u.flight ≠ .none → u.started = true
  late : u.over → u.flight = .pending → u.expired = true
  resolved : u.phase = .resolved → u.flight = .sent → u.outlived = true

/-- The unit ran, runs or was skipped. -/
def FlagUnit.begun (u : FlagUnit) : Prop := u.started = true ∨ u.over

theorem FlagUnit.Ok.step {l : UnitLabel} (h : u.Ok) (hstep : u.step l = some u') : u'.Ok := by
  cases l with
  | attempt =>
    rw [FlagUnit.step, Option.ite_none_right_eq_some] at hstep
    obtain ⟨⟨hphase, -, -⟩, hstep⟩ := hstep
    cases hstep
    refine ⟨h.running, h.reserved, fun _ => h.running hphase, fun hover => ?_, fun hphase' => ?_⟩
    · rcases hover with hover | hover <;> cases hphase.symm.trans hover
    · cases hphase.symm.trans hphase'
  | send =>
    rw [FlagUnit.step, Option.ite_none_right_eq_some] at hstep
    obtain ⟨⟨hflight, hexp⟩, hstep⟩ := hstep
    cases hstep
    refine ⟨h.running, h.reserved, fun _ => h.flight (by rw [hflight]; decide), fun _ hf => ?_, fun hphase _ => ?_⟩
    · cases hf
    · rw [h.late (.inr hphase) hflight] at hexp
      cases hexp
  | settleAttempt =>
    rw [FlagUnit.step, Option.ite_none_right_eq_some] at hstep
    obtain ⟨hflight, hstep⟩ := hstep
    cases hstep
    have hsome : u.flight ≠ .none := by rcases hflight with hf | hf <;> rw [hf] <;> decide
    refine ⟨h.running, h.reserved, fun _ => h.flight hsome, fun _ hf => ?_, fun _ hf => ?_⟩
    · cases hf
    · cases hf
  | giveUp =>
    rw [FlagUnit.step, Option.ite_none_right_eq_some] at hstep
    obtain ⟨-, hstep⟩ := hstep
    cases hstep
    exact ⟨h.running, h.reserved, h.flight, fun _ _ => rfl, h.resolved⟩
  | tail =>
    rw [FlagUnit.step, Option.ite_none_right_eq_some] at hstep
    obtain ⟨⟨hphase, hflight⟩, hstep⟩ := hstep
    cases hstep
    refine ⟨fun hp => ?_, fun hp => ?_, h.flight, fun _ => h.late (.inl hphase), fun _ hf => absurd hf hflight⟩
    · cases hp
    · cases hp
  | tailTimeout =>
    rw [FlagUnit.step, Option.ite_none_right_eq_some] at hstep
    obtain ⟨⟨hphase, hflight⟩, hstep⟩ := hstep
    cases hstep
    refine ⟨fun hp => ?_, fun hp => ?_, h.flight, fun _ => h.late (.inl hphase), fun _ _ => rfl⟩
    · cases hp
    · cases hp

/-- A unit goes on; if it begins, the tails it found have resolved. -/
structure Becomes (s : State) (u u' : FlagUnit) : Prop where
  keys : u'.keys = u.keys
  prevs : u'.prevs = u.prevs
  ok : u.Ok → u'.Ok
  kept : u.phase = .resolved → u'.phase = .resolved
  waits : u.Ok → u'.begun → u.begun ∨ ∀ p ∈ u.prevs, s.resolved p = true

theorem becomes_step {l : UnitLabel} (h : u.step l = some u') : Becomes s u u' := by
  have hok : u.Ok → u'.Ok := fun hu => hu.step h
  cases l with
  | attempt =>
    rw [FlagUnit.step, Option.ite_none_right_eq_some] at h
    obtain ⟨-, h⟩ := h
    cases h
    exact ⟨rfl, rfl, hok, id, fun _ hb => .inl hb⟩
  | send =>
    rw [FlagUnit.step, Option.ite_none_right_eq_some] at h
    obtain ⟨-, h⟩ := h
    cases h
    exact ⟨rfl, rfl, hok, id, fun _ hb => .inl hb⟩
  | settleAttempt =>
    rw [FlagUnit.step, Option.ite_none_right_eq_some] at h
    obtain ⟨-, h⟩ := h
    cases h
    exact ⟨rfl, rfl, hok, id, fun _ hb => .inl hb⟩
  | giveUp =>
    rw [FlagUnit.step, Option.ite_none_right_eq_some] at h
    obtain ⟨-, h⟩ := h
    cases h
    exact ⟨rfl, rfl, hok, id, fun _ hb => .inl hb⟩
  | tail =>
    rw [FlagUnit.step, Option.ite_none_right_eq_some] at h
    obtain ⟨⟨hphase, -⟩, h⟩ := h
    cases h
    exact ⟨rfl, rfl, hok, fun _ => rfl, fun _ _ => .inl (.inr (.inl hphase))⟩
  | tailTimeout =>
    rw [FlagUnit.step, Option.ite_none_right_eq_some] at h
    obtain ⟨⟨hphase, -⟩, h⟩ := h
    cases h
    exact ⟨rfl, rfl, hok, fun _ => rfl, fun _ _ => .inl (.inr (.inl hphase))⟩

/-- A unit is skipped only when the tails it found have resolved. -/
def prompt (s : State) : Label → Bool
  | .skip i => s.units[i]?.all fun u => u.prevs.all s.resolved
  | _ => true

def Prompt (s : State) (l : Label) : Prop := prompt s l = true

instance (s : State) (l : Label) : Decidable (Prompt s l) := inferInstanceAs (Decidable (prompt s l = true))

/-- Unit `i` goes on, and only its own tail may leave the chains. -/
structure Changes (s s' : State) (i : Nat) (u u' : FlagUnit) : Prop where
  unit : s.units[i]? = some u
  units : s'.units = s.units.set i u'
  becomes : Becomes s u u'
  chains {x : Letter} : s'.chains x = s.chains x ∨
    (x ∈ u.keys ∧ s.chains x = some i ∧ u.phase = .resolved ∧ s'.chains x = none)

theorem Acts.changes (h : Acts s l s') (hg : Prompt s l) : ∃ i u u', Changes s s' i u u' := by
  cases h with
  | @start i u c hturn hphase hskip hprevs =>
    have hu := (turn_iff.mp hturn).1
    refine ⟨i, u, _, hu, rfl, ⟨rfl, rfl, fun hok => ?_, fun hp => ?_, fun _ _ => .inr hprevs⟩, .inl rfl⟩
    · refine ⟨fun _ => rfl, fun hp => ?_, fun _ => rfl, fun hover => ?_, fun hp => ?_⟩
      · cases hp
      · rcases hover with hover | hover <;> cases hover
      · cases hp
    · cases hphase.symm.trans hp
  | @skip i u c hturn hphase hskip =>
    have hu := (turn_iff.mp hturn).1
    have hprevs : ∀ p ∈ u.prevs, s.resolved p = true := by
      rw [Prompt, prompt, hu] at hg
      exact List.all_eq_true.mp hg
    refine ⟨i, u, _, hu, rfl, ⟨rfl, rfl, fun hok => ?_, fun hp => ?_, fun _ _ => .inr hprevs⟩, .inl rfl⟩
    · have hnone : u.flight = .none := by
        by_contra hf
        have hstarted := hok.flight hf
        rw [hok.reserved hphase] at hstarted
        cases hstarted
      refine ⟨fun hp => ?_, fun hp => ?_, hok.flight, fun _ hf => ?_, fun hp => ?_⟩
      · cases hp
      · cases hp
      · cases hnone.symm.trans hf
      · cases hp
    · cases hphase.symm.trans hp
  | @answer i u c outcome hturn hphase hflight =>
    have hu := (turn_iff.mp hturn).1
    refine ⟨i, u, _, hu, rfl, ⟨rfl, rfl, fun hok => ?_, fun hp => ?_, fun hok _ => .inl (.inl (hok.running hphase))⟩,
      .inl rfl⟩
    · refine ⟨fun hp => ?_, fun hp => ?_, hok.flight, fun _ hf => ?_, fun hp => ?_⟩
      · cases hp
      · cases hp
      · rcases hflight with hf' | hf' | hf'
        · cases hf'.symm.trans hf
        · cases hf'.symm.trans hf
        · exact hf'
      · cases hp
    · cases hphase.symm.trans hp
  | @inside i u u' l hu hstep => exact ⟨i, u, u', hu, rfl, becomes_step hstep, .inl rfl⟩
  | @clear i u hu hphase hcleared =>
    refine ⟨i, u, _, hu, rfl, ⟨rfl, rfl, fun hok => ?_, id, fun _ hb => .inl hb⟩, ?_⟩
    · exact ⟨hok.running, hok.reserved, hok.flight, hok.late, hok.resolved⟩
    · intro x
      by_cases hx : x ∈ u.keys ∧ s.chains x = some i
      · exact .inr ⟨hx.1, hx.2, hphase, if_pos hx⟩
      · exact .inl (if_neg hx)

/-! ## The chains -/

structure Ordered (s : State) : Prop where
  ok {i : Nat} {u : FlagUnit} : s.units[i]? = some u → u.Ok
  prevs {i p : Nat} {u : FlagUnit} : s.units[i]? = some u → p ∈ u.prevs → p < i
  waits {i p : Nat} {u : FlagUnit} : s.units[i]? = some u → u.begun → p ∈ u.prevs → s.resolved p = true
  /-- a tail that a unit finds covers the earlier units on the letter -/
  covers {i j : Nat} {u v : FlagUnit} {x : Letter} : i < j → s.units[i]? = some u → s.units[j]? = some v →
    x ∈ u.keys → x ∈ v.keys → s.resolved i = true ∨
      ∃ p ∈ v.prevs, i ≤ p ∧ ∃ w, s.units[p]? = some w ∧ x ∈ w.keys
  last {j : Nat} {x : Letter} : s.chains x = some j → (∃ v, s.units[j]? = some v ∧ x ∈ v.keys) ∧
    ∀ i u, s.units[i]? = some u → x ∈ u.keys → i ≤ j
  gone {i : Nat} {u : FlagUnit} {x : Letter} : s.chains x = none → s.units[i]? = some u → x ∈ u.keys →
    s.resolved i = true

theorem resolved_iff : s.resolved i = true ↔ ∃ u, s.units[i]? = some u ∧ u.phase = .resolved := by
  simp [State.resolved, Option.any_eq_true]

/-- When a unit begins, every earlier unit on its letters is over. -/
theorem Ordered.earlier (h : Ordered s) (hj : s.units[j]? = some v) (hbegun : v.begun) (hij : i < j)
    (hi : s.units[i]? = some u) (hu : x ∈ u.keys) (hv : x ∈ v.keys) : s.resolved i = true := by
  induction j using Nat.strong_induction_on generalizing v with
  | _ j ih =>
    obtain hres | ⟨p, hp, hip, w, hw, hx⟩ := h.covers hij hi hj hu hv
    · exact hres
    have hres := h.waits hj hbegun hp
    rcases hip.eq_or_lt with rfl | hlt
    · exact hres
    obtain ⟨w', hw', hphase⟩ := resolved_iff.mp hres
    cases hw.symm.trans hw'
    exact ih p (h.prevs hj hp) hw (.inr (.inr hphase)) hlt hx

theorem Changes.resolved (h : Changes s s' i u u') (hp : s.resolved p = true) : s'.resolved p = true := by
  obtain ⟨v, hv, hphase⟩ := resolved_iff.mp hp
  rw [resolved_iff, h.units]
  by_cases hip : i = p
  · subst hip
    cases h.unit.symm.trans hv
    exact ⟨u', (Agents.getElem?_set_some h.unit).mpr (.inl ⟨rfl, rfl⟩), h.becomes.kept hphase⟩
  · exact ⟨v, (Agents.getElem?_set_some h.unit).mpr (.inr ⟨hip, hv⟩), hphase⟩

/-- A unit after a change, with the unit it was. -/
theorem Changes.back (h : Changes s s' i u u') (hj : s'.units[j]? = some v) :
    ∃ v₀, s.units[j]? = some v₀ ∧ v.keys = v₀.keys ∧ v.prevs = v₀.prevs ∧ (v₀.Ok → v.Ok) ∧
      (v₀.Ok → v.begun → v₀.begun ∨ ∀ p ∈ v₀.prevs, s.resolved p = true) := by
  rw [h.units] at hj
  obtain ⟨rfl, rfl⟩ | ⟨-, hj⟩ := (Agents.getElem?_set_some h.unit).mp hj
  · exact ⟨u, h.unit, h.becomes.keys, h.becomes.prevs, h.becomes.ok, h.becomes.waits⟩
  · exact ⟨v, hj, rfl, rfl, id, fun _ hb => .inl hb⟩

theorem Changes.forth (h : Changes s s' i u u') (hj : s.units[j]? = some v) :
    ∃ v', s'.units[j]? = some v' ∧ v'.keys = v.keys := by
  rw [h.units]
  by_cases hij : i = j
  · subst hij
    cases h.unit.symm.trans hj
    exact ⟨u', (Agents.getElem?_set_some h.unit).mpr (.inl ⟨rfl, rfl⟩), h.becomes.keys⟩
  · exact ⟨v, (Agents.getElem?_set_some h.unit).mpr (.inr ⟨hij, hj⟩), rfl⟩

theorem Ordered.changes (h : Ordered s) (hc : Changes s s' i u u') : Ordered s' := by
  refine ⟨?_, ?_, ?_, ?_, ?_, ?_⟩
  · intro j v hj
    obtain ⟨v₀, hj₀, -, -, hok, -⟩ := hc.back hj
    exact hok (h.ok hj₀)
  · intro j p v hj hp
    obtain ⟨v₀, hj₀, -, hprevs, -⟩ := hc.back hj
    exact h.prevs hj₀ (hprevs ▸ hp)
  · intro j p v hj hbegun hp
    obtain ⟨v₀, hj₀, -, hprevs, -, hwaits⟩ := hc.back hj
    rw [hprevs] at hp
    obtain hb | hres := hwaits (h.ok hj₀) hbegun
    · exact hc.resolved (h.waits hj₀ hb hp)
    · exact hc.resolved (hres p hp)
  · intro j j' v v' x hlt hj hj' hx hx'
    obtain ⟨v₀, hj₀, hkeys, -⟩ := hc.back hj
    obtain ⟨v₀', hj₀', hkeys', hprevs', -⟩ := hc.back hj'
    obtain hres | ⟨p, hp, hle, w, hw, hxw⟩ := h.covers hlt hj₀ hj₀' (hkeys ▸ hx) (hkeys' ▸ hx')
    · exact .inl (hc.resolved hres)
    · obtain ⟨w', hw', hkw⟩ := hc.forth hw
      exact .inr ⟨p, hprevs' ▸ hp, hle, w', hw', hkw ▸ hxw⟩
  · intro j x hx
    have hold : s.chains x = some j := by
      obtain heq | ⟨-, -, -, hnone⟩ := hc.chains
      · exact heq ▸ hx
      · cases hnone.symm.trans hx
    obtain ⟨⟨v, hv, hxv⟩, hle⟩ := h.last hold
    obtain ⟨v', hv', hkv⟩ := hc.forth hv
    refine ⟨⟨v', hv', hkv ▸ hxv⟩, fun j' w hw hxw => ?_⟩
    obtain ⟨w₀, hw₀, hkeys, -⟩ := hc.back hw
    exact hle j' w₀ hw₀ (hkeys ▸ hxw)
  · intro j v x hx hj hxv
    obtain ⟨v₀, hj₀, hkeys, -⟩ := hc.back hj
    rw [hkeys] at hxv
    obtain heq | ⟨hxu, hlast, hphase, -⟩ := @Changes.chains _ _ _ _ _ hc x
    · exact hc.resolved (h.gone (heq ▸ hx) hj₀ hxv)
    -- the tail that left the chains stands for the earlier units on the letter
    · rcases ((h.last hlast).2 j v₀ hj₀ hxv).eq_or_lt with rfl | hlt
      · exact hc.resolved (resolved_iff.mpr ⟨u, hc.unit, hphase⟩)
      · exact hc.resolved (h.earlier hc.unit (.inr (.inr hphase)) hlt hj₀ hxv hxu)

/-! ## Reserving -/

theorem getElem?_snoc_some {α : Type} {l : List α} {a b : α} :
    (l ++ [a])[j]? = some b ↔ l[j]? = some b ∨ (j = l.length ∧ b = a) := by
  rw [List.getElem?_append]
  split
  next hlt =>
    constructor
    · exact .inl
    · rintro (h | ⟨rfl, -⟩)
      · exact h
      · exact absurd hlt (lt_irrefl _)
  next hge =>
    have hout : l[j]? = none := List.getElem?_eq_none (by omega)
    rw [hout, List.getElem?_singleton]
    by_cases hj : j = l.length
    · simp [hj, eq_comm]
    · rw [if_neg (by omega)]
      simp [hj]

theorem lt_of_getElem? {α : Type} {l : List α} {a : α} (h : l[i]? = some a) : i < l.length :=
  (List.getElem?_eq_some_iff.mp h).1

theorem resolved_reserveUnit {chunk : Chunk} {call : Nat} (h : s.resolved i = true) :
    (reserveUnit call s chunk).resolved i = true := by
  obtain ⟨u, hu, hphase⟩ := resolved_iff.mp h
  exact resolved_iff.mpr ⟨u, getElem?_snoc_some.mpr (.inl hu), hphase⟩

theorem Ordered.reserveUnit {chunk : Chunk} {call : Nat} (h : Ordered s) :
    Ordered (reserveUnit call s chunk) := by
  have hkeys : (chunk.unit call s.chains).keys = chunk.keys := rfl
  have hprevs : ∀ {p}, p ∈ (chunk.unit call s.chains).prevs ↔ ∃ x ∈ chunk.keys, s.chains x = some p :=
    List.mem_filterMap
  refine ⟨?_, ?_, ?_, ?_, ?_, ?_⟩
  · intro j v hj
    obtain hj | ⟨-, rfl⟩ := getElem?_snoc_some.mp hj
    · exact h.ok hj
    · refine ⟨fun hp => ?_, fun _ => rfl, fun hf => absurd rfl hf, fun hover => ?_, fun hp => ?_⟩
      · cases hp
      · rcases hover with hp | hp <;> cases hp
      · cases hp
  · intro j p v hj hp
    obtain hj | ⟨rfl, rfl⟩ := getElem?_snoc_some.mp hj
    · exact h.prevs hj hp
    · obtain ⟨x, -, hx⟩ := hprevs.mp hp
      obtain ⟨⟨w, hw, -⟩, -⟩ := h.last hx
      exact lt_of_getElem? hw
  · intro j p v hj hbegun hp
    obtain hj | ⟨-, rfl⟩ := getElem?_snoc_some.mp hj
    · exact resolved_reserveUnit (h.waits hj hbegun hp)
    · rcases hbegun with hb | hb | hb <;> cases hb
  · intro j j' v v' x hlt hj hj' hx hx'
    obtain hj' | ⟨rfl, rfl⟩ := getElem?_snoc_some.mp hj'
    · obtain hj | ⟨rfl, -⟩ := getElem?_snoc_some.mp hj
      · obtain hres | ⟨p, hp, hle, w, hw, hxw⟩ := h.covers hlt hj hj' hx hx'
        · exact .inl (resolved_reserveUnit hres)
        · exact .inr ⟨p, hp, hle, w, getElem?_snoc_some.mpr (.inl hw), hxw⟩
      · have := lt_of_getElem? hj'
        omega
    · obtain hj | ⟨rfl, -⟩ := getElem?_snoc_some.mp hj
      · cases hc : s.chains x with
        | none => exact .inl (resolved_reserveUnit (h.gone hc hj hx))
        | some p =>
          obtain ⟨⟨w, hw, hxw⟩, hle⟩ := h.last hc
          exact .inr ⟨p, hprevs.mpr ⟨x, hx', hc⟩, hle j v hj hx, w, getElem?_snoc_some.mpr (.inl hw), hxw⟩
      · exact absurd hlt (lt_irrefl _)
  · intro j x hx
    have hx : (if x ∈ chunk.keys then some s.units.length else s.chains x) = some j := hx
    split at hx
    next hmem =>
      cases hx
      refine ⟨⟨_, getElem?_snoc_some.mpr (.inr ⟨rfl, rfl⟩), hmem⟩, fun i u hi _ => ?_⟩
      obtain hi | ⟨rfl, -⟩ := getElem?_snoc_some.mp hi
      · exact (lt_of_getElem? hi).le
      · exact le_rfl
    next hmem =>
      obtain ⟨⟨v, hv, hxv⟩, hle⟩ := h.last hx
      refine ⟨⟨v, getElem?_snoc_some.mpr (.inl hv), hxv⟩, fun i u hi hxu => ?_⟩
      obtain hi | ⟨-, rfl⟩ := getElem?_snoc_some.mp hi
      · exact hle i u hi hxu
      · exact absurd hxu hmem
  · intro j v x hx hj hxv
    have hx : (if x ∈ chunk.keys then some s.units.length else s.chains x) = none := hx
    split at hx
    · cases hx
    next hmem =>
      obtain hj | ⟨-, rfl⟩ := getElem?_snoc_some.mp hj
      · exact resolved_reserveUnit (h.gone hx hj hxv)
      · exact absurd hxv hmem

theorem Ordered.foldl_reserveUnit {call : Nat} {cs : List Chunk} (h : Ordered s) :
    Ordered (cs.foldl (FlagStores.reserveUnit call) s) := by
  induction cs generalizing s with
  | nil => exact h
  | cons chunk cs ih => exact ih h.reserveUnit

theorem Ordered.withCalls {calls : List Call} (h : Ordered s) : Ordered { s with calls := calls } :=
  ⟨h.ok, h.prevs, h.waits, h.covers, h.last, h.gone⟩

theorem ordered : system.Invariant Prompt Ordered where
  init {s} h := by
    obtain ⟨hunits, -, hchains⟩ := h
    have hnone : ∀ {i : Nat} {u : FlagUnit}, s.units[i]? ≠ some u := by
      intro i u hu
      rw [hunits] at hu
      cases hu
    refine ⟨fun hu => absurd hu hnone, fun hu => absurd hu hnone, fun hu => absurd hu hnone,
      fun _ hu => absurd hu hnone, fun {j x} hx => ?_, fun _ hu => absurd hu hnone⟩
    rw [hchains] at hx
    cases hx
  step {s l s'} h hg hstep := by
    obtain ⟨groups, flag, value, -, rfl⟩ | hacts := step_cases hstep
    · exact h.foldl_reserveUnit.withCalls
    · obtain ⟨i, u, u', hc⟩ := hacts.changes hg
      exact h.changes hc

/-- A unit that has resolved has no store running. -/
theorem FlagUnit.Ok.not_storing (h : u.Ok) (hphase : u.phase = .resolved) : ¬u.storing := by
  rintro (hp | ⟨hf, ho⟩)
  · cases hphase.symm.trans hp
  · rw [h.resolved hphase hf] at ho
    cases ho

end MailExpert.FlagStores
