import MailExpert.TenantRunner.Runner

/-!
# Each operation gets its own answer

In every run in which no replaced runner answers the call in progress (`own`), the calls run in order, one at a time, and each settles once, with
an answer of the runner it was written to (`own_answers`).
-/

namespace MailExpert.TenantRunner

universe u

open Sanitizer (Text codes)

variable {β : Type u} {parse : Text → Parsed β} {maxQueue r : Nat} {s s' : State β} {e : Exec β} {l : Label} {v : Verdict β} {o : Outcome β}
  {queue : List Nat}

/-- What a race that is settled says about the running call. -/
structure VerdictOk (s : State β) (e : Exec β) (v : Verdict β) : Prop where
  ready : v = .ready → e.id = none
  exited : ∀ r, v = .ends (.exited r) → r = e.runner
  answered : ∀ r id body, v = .ends (.answered r id body) → e.id = some id ∧ r = e.runner ∧ (r, id, body) ∈ s.printed

structure ExecOk (s : State β) (e : Exec β) : Prop where
  call : e.call = s.settled.length
  runner : e.runner < s.runners.length
  child : s.child = none ∨ s.child = some e.runner
  written : ∀ id, e.id = some id → ⟨e.call, id, e.runner⟩ ∈ s.written
  fired : e.fired = true → e.race ≠ none
  race : ∀ v, e.race = some v → VerdictOk s e v
  fresh : ∀ x ∈ s.settled, x.outcome = .timedOut → x.spawned ≤ e.runner

structure SettledOk (s : State β) (x : Settled β) : Prop where
  fresh : x.outcome = .timedOut → x.spawned ≤ s.runners.length ∧ (∀ c, s.child = some c → x.spawned ≤ c) ∧
    ∀ w ∈ s.written, x.call < w.call → x.spawned ≤ w.runner
  exited : ∀ r, x.outcome = .exited r → ∀ w ∈ s.written, w.call = x.call → w.runner = r
  answered : ∀ r id body, x.outcome = .answered r id body → (r, id, body) ∈ s.printed ∧ ⟨x.call, id, r⟩ ∈ s.written

structure Inv (maxQueue : Nat) (s : State β) : Prop where
  exec : ∀ e, s.running = some e → ExecOk s e
  settled : ∀ x ∈ s.settled, SettledOk s x
  order : s.settled.map (·.call) ++ (s.running.map (·.call)).toList ++ s.queue = List.range s.accepted
  counted : s.waiting + s.released = s.accepted
  released : s.released ≤ s.settled.length
  bounded : s.waiting ≤ maxQueue
  child : ∀ c, s.child = some c → c < s.runners.length
  sorted : s.written.Pairwise fun w w' => w.call < w'.call
  written : ∀ w ∈ s.written, w.call < s.settled.length ∨ ∃ e, s.running = some e ∧ e.call = w.call ∧ e.id.isSome

theorem Inv.start : Inv maxQueue (.start : State β) where
  exec := nofun
  settled := nofun
  order := rfl
  counted := rfl
  released := Nat.zero_le _
  bounded := Nat.zero_le _
  child := nofun
  sorted := .nil
  written := nofun

theorem Inv.calls (h : Inv maxQueue s) : s.settled.map (·.call) = List.range s.settled.length := by
  have hlength := congrArg List.length h.order
  simp only [List.length_append, List.length_map, List.length_range] at hlength
  have htake := congrArg (List.take s.settled.length) h.order
  rwa [List.append_assoc, List.take_left' (List.length_map _), List.take_range, Nat.min_eq_left (by omega)] at htake

theorem Inv.call_lt (h : Inv maxQueue s) {x : Settled β} (hx : x ∈ s.settled) : x.call < s.settled.length := by
  have hmem := List.mem_map_of_mem (f := (·.call)) hx
  rwa [h.calls, List.mem_range] at hmem

theorem Inv.written_unique (h : Inv maxQueue s) {w w' : Written} (hw : w ∈ s.written) (hw' : w' ∈ s.written) (hcall : w.call = w'.call) :
    w = w' := by
  have hnodup : (s.written.map (·.call)).Nodup := List.pairwise_map.mpr (h.sorted.imp ne_of_lt)
  exact List.inj_on_of_nodup_map hnodup hw hw' hcall

theorem Inv.runner_of_written (h : Inv maxQueue s) (he : s.running = some e) {w : Written} (hw : w ∈ s.written) (hcall : w.call = e.call) :
    w.runner = e.runner := by
  rcases h.written w hw with hlt | ⟨e', he', -, hid⟩
  · rw [hcall, (h.exec e he).call] at hlt
    exact absurd hlt (lt_irrefl _)
  · cases he.symm.trans he'
    obtain ⟨id, hid⟩ := Option.isSome_iff_exists.mp hid
    rw [h.written_unique hw ((h.exec e he).written id hid) hcall]

theorem Inv.written_le (h : Inv maxQueue s) {w : Written} (hw : w ∈ s.written) : w.call ≤ s.settled.length := by
  rcases h.written w hw with hlt | ⟨e, he, hcall, -⟩
  · exact hlt.le
  · rw [← hcall, (h.exec e he).call]

/-! ## What the handlers do -/

theorem Inv.aside (h : Inv maxQueue s) {runners : List Runner} {printed : List (Nat × Nat × β)} (nextId : Nat) (crashed : Bool)
    (hlength : runners.length = s.runners.length) (hprinted : s.printed ⊆ printed) :
    Inv maxQueue { s with runners, printed, nextId, crashed } :=
  { h with
    exec := fun e he =>
      { h.exec e he with
        runner := (h.exec e he).runner.trans_eq hlength.symm
        race := fun v hv =>
          { (h.exec e he).race v hv with
            answered := fun r id body hans =>
              have hold := ((h.exec e he).race v hv).answered r id body hans
              ⟨hold.1, hold.2.1, hprinted hold.2.2⟩ } }
    settled := fun x hx =>
      { h.settled x hx with
        fresh := fun htime =>
          have hold := (h.settled x hx).fresh htime
          ⟨hold.1.trans_eq hlength.symm, hold.2⟩
        answered := fun r id body hans =>
          have hold := (h.settled x hx).answered r id body hans
          ⟨hprinted hold.1, hold.2⟩ }
    child := fun c hc => (h.child c hc).trans_eq hlength.symm }

theorem Inv.stop (h : Inv maxQueue s) : Inv maxQueue s.stop :=
  { h with
    exec := fun e he => { h.exec e he with child := .inl rfl, race := fun v hv => { (h.exec e he).race v hv with } }
    settled := fun x hx =>
      { h.settled x hx with
        fresh := fun htime =>
          have hold := (h.settled x hx).fresh htime
          ⟨hold.1, nofun, hold.2.2⟩ }
    child := nofun }

/-- Whatever becomes of the race of the running call, when it is settled with what holds of it. -/
theorem Inv.race (h : Inv maxQueue s) (he : s.running = some e) {race : Option (Verdict β)} {fired : Bool} (hfired : fired = true → race ≠ none)
    (hv : ∀ v, race = some v → VerdictOk s e v) : Inv maxQueue { s with running := some { e with race, fired } } :=
  { h with
    exec := fun e' he' => by
      cases he'
      exact { h.exec e he with fired := hfired, race := fun v hrace => { hv v hrace with } }
    settled := fun x hx => { h.settled x hx with }
    order := by
      have horder := h.order
      rwa [he] at horder
    written := fun w hw => by
      rcases h.written w hw with hlt | ⟨e', he', hcall, hid⟩
      · exact .inl hlt
      · cases he.symm.trans he'
        exact .inr ⟨_, rfl, hcall, hid⟩ }

theorem Inv.settleRace (h : Inv maxQueue s) (p : Exec β → Bool) (hv : ∀ e, s.running = some e → p e = true → VerdictOk s e v) :
    Inv maxQueue (s.settleRace p v) := by
  match he : s.running with
  | none =>
    have heq : s.settleRace p v = s := by rw [State.settleRace, he, Option.map_none, ← he]
    rwa [heq]
  | some e =>
    by_cases hp : (p e && e.race.isNone) = true
    · have heq : s.settleRace p v = { s with running := some { e with race := some v, fired := e.fired } } := by
        rw [State.settleRace, he, Option.map_some, if_pos hp]
      rw [heq]
      refine h.race he (fun _ => Option.some_ne_none v) fun v' hv' => ?_
      cases hv'
      exact hv e he (Bool.and_eq_true_iff.mp hp).1
    · have heq : s.settleRace p v = s := by rw [State.settleRace, he, Option.map_some, if_neg hp, ← he]
      rwa [heq]

theorem Inv.settleReady (h : Inv maxQueue s) (outcome : Ready) (hv : v = .ready ∨ v = .ends (.exited r)) :
    Inv maxQueue (s.settleReady r outcome v) := by
  rw [State.settleReady]
  split
  · refine (h.aside s.nextId s.crashed (List.length_set ..) (List.Subset.refl _)).settleRace _ fun e he hp => ?_
    obtain ⟨hrunner, hid⟩ := Bool.and_eq_true_iff.mp hp
    exact
      { ready := fun _ => Option.isNone_iff_eq_none.mp hid
        exited := fun r' hr' => by
          rcases hv with rfl | rfl
          · cases hr'
          · cases hr'
            exact (of_decide_eq_true hrunner).symm
        answered := fun r' id body hans => by rcases hv with rfl | rfl <;> cases hans }
  · exact h

/-- The request in progress and the runner it was written to. -/
def target (s : State β) : Option (Nat × Nat) := s.running.bind fun e => e.id.map fun id => (id, e.runner)

theorem target_settleRace (p : Exec β → Bool) : target (s.settleRace p v) = target s := by
  rw [target, target, State.settleRace]
  cases s.running with
  | none => rfl
  | some e =>
    simp only [Option.map_some, Option.bind_some]
    split <;> rfl

theorem target_settleReady (outcome : Ready) : target (s.settleReady r outcome v) = target s := by
  rw [State.settleReady]
  split
  · exact target_settleRace _
  · rfl

theorem target_onLine (line : Text) : target (onLine parse r s line) = target s := by
  unfold onLine
  split
  · rfl
  · split
    · rfl
    · rfl
    · rfl
    · rfl
    · dsimp only
      split_ifs
      · exact target_settleReady _
      · exact target_settleRace _
      · rfl

theorem Inv.onLine (h : Inv maxQueue s) {line : Text}
    (hown : ∀ id c body, target s = some (id, c) → answerOf parse line = some (.answer (some id) body) → r = c) :
    Inv maxQueue (onLine parse r s line) := by
  unfold TenantRunner.onLine
  split
  · exact h
  · split
    · exact h
    · exact h
    · exact h
    · exact h.aside s.nextId true rfl (List.Subset.refl _)
    · next id body hline =>
      have hprinted : Inv maxQueue { s with printed := s.printed ++ [(r, id, body)] } :=
        h.aside s.nextId s.crashed rfl (List.subset_append_left _ _)
      dsimp only
      split_ifs with hzero hcurrent
      · exact hprinted.settleReady .ready (.inl rfl)
      · refine hprinted.settleRace _ fun e he _ => ?_
        have hid : e.id = some id := by
          rw [State.current, he] at hcurrent
          exact hcurrent
        have htarget : target s = some (id, e.runner) := by
          change s.running = some e at he
          rw [target, he, Option.bind_some, hid, Option.map_some]
        exact
          { ready := nofun
            exited := nofun
            answered := fun r' id' body' hans => by
              cases hans
              exact ⟨hid, hown id e.runner body htarget hline, List.mem_append_right _ (List.mem_singleton_self _)⟩ }
      · exact hprinted

/-- By induction on the lines; none of them changes the request in progress. -/
theorem Inv.onLines (h : Inv maxQueue s) {ls : List Text}
    (hown : ∀ line ∈ ls, ∀ id c body, target s = some (id, c) → answerOf parse line = some (.answer (some id) body) → r = c) :
    Inv maxQueue (ls.foldl (TenantRunner.onLine parse r) s) := by
  induction ls generalizing s with
  | nil => exact h
  | cons line ls ih =>
    rw [List.forall_mem_cons] at hown
    refine ih (h.onLine hown.1) fun line' hline' => ?_
    rw [target_onLine]
    exact hown.2 line' hline'

theorem target_eq {id c : Nat} : target s = some (id, c) ↔ ∃ e, s.running = some e ∧ e.id = some id ∧ e.runner = c := by
  simp only [target, Option.bind_eq_some_iff, Option.map_eq_some_iff, Prod.mk.injEq]
  grind

theorem Inv.onGone (h : Inv maxQueue s) : Inv maxQueue (onGone s r) := by
  unfold TenantRunner.onGone
  split
  · next hchild =>
    have hfailed : Inv maxQueue (s.stop.settleReady r .failed (.ends (.exited r))) := h.stop.settleReady .failed (.inr rfl)
    dsimp only
    split
    · next hcurrent =>
      refine hfailed.settleRace _ fun e he _ => ?_
      -- the request in progress was written to the child
      obtain ⟨id, hid⟩ := Option.isSome_iff_exists.mp hcurrent
      rw [State.current, he, Option.bind_some] at hid
      have htarget : target s.stop = some (id, e.runner) := (target_settleReady .failed).symm.trans (target_eq.mpr ⟨e, he, hid, rfl⟩)
      obtain ⟨e₀, he₀, -, hrunner⟩ := target_eq.mp htarget
      have hr : r = e.runner := by
        rcases (h.exec e₀ he₀).child with hnone | hsome
        · rw [hchild] at hnone
          cases hnone
        · rw [hchild, hrunner] at hsome
          exact Option.some.inj hsome
      exact
        { ready := nofun
          exited := fun r' hr' => by
            cases hr'
            exact hr
          answered := nofun }
    · exact hfailed
  · exact h.settleReady .failed (.inr rfl)

/-! ## What `exec` does -/

/-- The first call that has not settled. -/
theorem Inv.next_call (h : Inv maxQueue s) {call : Nat} (hnext : (s.running.map (·.call)).toList ++ s.queue = call :: queue) :
    call = s.settled.length := by
  have hget : (List.range s.accepted)[s.settled.length]? = some call := by
    rw [← h.order, List.append_assoc, hnext, List.getElem?_append_right (by simp)]
    simp
  obtain ⟨hlt, heq⟩ := List.getElem?_eq_some_iff.mp hget
  rw [List.getElem_range] at heq
  exact heq.symm

/-- The next call settles as what is known of it allows. -/
theorem Inv.settle (h : Inv maxQueue s) {call : Nat} (hnext : (s.running.map (·.call)).toList ++ s.queue = call :: queue)
    (htime : o = .timedOut → s.child = none) (hexited : ∀ r, o = .exited r → ∀ w ∈ s.written, w.call = call → w.runner = r)
    (hanswered : ∀ r id body, o = .answered r id body → (r, id, body) ∈ s.printed ∧ ⟨call, id, r⟩ ∈ s.written) :
    Inv maxQueue ({ s with queue }.settle call o) :=
  { h with
    exec := nofun
    settled := fun x hx => by
      rcases List.mem_append.mp hx with hx | hx
      · exact { h.settled x hx with }
      · obtain rfl := List.mem_singleton.mp hx
        refine ⟨fun ho => ⟨le_rfl, fun c hc => ?_, fun w hw hlt => ?_⟩, hexited, hanswered⟩
        · cases (htime ho).symm.trans hc
        · exact absurd (h.next_call hnext ▸ h.written_le hw) hlt.not_ge
    order := by
      have hall := h.order
      rw [List.append_assoc, hnext] at hall
      simpa [State.settle] using hall
    released := h.released.trans (by simp [State.settle])
    written := fun w hw => .inl (by
      have hle := h.written_le hw
      simp only [State.settle, List.length_append, List.length_singleton]
      omega) }

theorem Inv.run (h : Inv maxQueue s) {call c : Nat} {race : Option (Verdict β)} (hnone : s.running = none) (hqueue : s.queue = call :: queue)
    (hc : s.child = some c) (hrace : ∀ v, race = some v → v = .ready ∨ v = .ends (.exited c)) :
    Inv maxQueue { s with queue, running := some ⟨call, c, none, race, false⟩ } :=
  { h with
    exec := fun e he => by
      cases he
      refine ⟨h.next_call (by rw [hnone, hqueue]; rfl), h.child c hc, .inr hc, nofun, nofun, fun v hv => ?_, fun x hx ho => ?_⟩
      · rcases hrace v hv with rfl | rfl
        · exact ⟨fun _ => rfl, nofun, nofun⟩
        · exact ⟨nofun, fun r hr => by cases hr; rfl, nofun⟩
      · exact ((h.settled x hx).fresh ho).2.1 c hc
    settled := fun x hx => { h.settled x hx with }
    order := by
      have horder := h.order
      rw [hnone, hqueue] at horder
      simpa using horder
    written := fun w hw => by
      rcases h.written w hw with hlt | ⟨e, he, -⟩
      · exact .inl hlt
      · rw [hnone] at he
        cases he }

theorem Inv.spawn (h : Inv maxQueue s) (hnone : s.running = none) (runner : Runner) :
    Inv maxQueue { s with child := some s.runners.length, runners := s.runners ++ [runner] } :=
  { h with
    exec := fun e he => by
      rw [hnone] at he
      cases he
    settled := fun x hx =>
      { h.settled x hx with
        fresh := fun ho => by
          obtain ⟨hle, -, hwritten⟩ := (h.settled x hx).fresh ho
          refine ⟨hle.trans (by simp), fun c hc => ?_, hwritten⟩
          cases hc
          exact hle }
    child := fun c hc => by
      cases hc
      simp }

theorem Inv.begin (h : Inv maxQueue s) {call : Nat} (hnone : s.running = none) (hqueue : s.queue = call :: queue) (spawns : Bool) :
    Inv maxQueue (begin s spawns call queue) := by
  unfold TenantRunner.begin
  split
  · next c hc =>
    refine h.run hnone hqueue hc fun v hv => ?_
    unfold raceOf at hv
    split at hv <;> cases hv
    · exact .inl rfl
    · exact .inr rfl
  · exact (h.spawn hnone ⟨[], .pending⟩).run hnone hqueue rfl nofun
  · exact h.settle (by rw [hnone, hqueue]; rfl) nofun nofun nofun

/-- The running call writes its request to the child. -/
theorem Inv.write (h : Inv maxQueue s) (he : s.running = some e) (hid : e.id = none) {c : Nat} (hc : s.child = some c) (id : Nat) :
    Inv maxQueue { s with nextId := id + 1, written := s.written ++ [⟨e.call, id, c⟩],
                          running := some { e with runner := c, id := some id, race := if e.fired then some (.ends .timedOut) else none } } := by
  have hrunner : c = e.runner := by
    rcases (h.exec e he).child with hnone | hsome
    · rw [hc] at hnone
      cases hnone
    · exact Option.some.inj (hc.symm.trans hsome)
  subst hrunner
  have hlt : ∀ w ∈ s.written, w.call < e.call := fun w hw => by
    rcases h.written w hw with hlt | ⟨e', he', -, hsome⟩
    · rwa [(h.exec e he).call]
    · cases he.symm.trans he'
      rw [hid] at hsome
      cases hsome
  have hmem : ∀ w ∈ s.written ++ [⟨e.call, id, e.runner⟩], w ∈ s.written ∨ w = ⟨e.call, id, e.runner⟩ := fun w hw => by
    simpa using hw
  exact
    { h with
      exec := fun e' he' => by
        cases he'
        refine { h.exec e he with written := fun id' hid' => ?_, fired := ?_, race := fun v hv => ?_ }
        · cases hid'
          exact List.mem_append_right _ (List.mem_singleton_self _)
        · intro hfired
          simp [show e.fired = true from hfired]
        · dsimp only at hv
          split at hv
          · cases hv
            exact ⟨nofun, nofun, nofun⟩
          · cases hv
      settled := fun x hx =>
        { fresh := fun ho => by
            obtain ⟨hle, hchild, hwritten⟩ := (h.settled x hx).fresh ho
            refine ⟨hle, hchild, fun w hw hcall => ?_⟩
            rcases hmem w hw with hw | rfl
            · exact hwritten w hw hcall
            · exact hchild _ hc
          exited := fun r hr w hw hcall => by
            rcases hmem w hw with hw | rfl
            · exact (h.settled x hx).exited r hr w hw hcall
            · have hx' := h.call_lt hx
              rw [← hcall, (h.exec e he).call] at hx'
              exact absurd hx' (lt_irrefl _)
          answered := fun r id' body ho =>
            have hold := (h.settled x hx).answered r id' body ho
            ⟨hold.1, List.mem_append_left _ hold.2⟩ }
      order := by
        have horder := h.order
        rwa [he] at horder
      sorted := List.pairwise_append.mpr ⟨h.sorted, List.pairwise_singleton .., fun w hw w' hw' => List.mem_singleton.mp hw' ▸ hlt w hw⟩
      written := fun w hw => by
        rcases hmem w hw with hw | rfl
        · exact .inl ((hlt w hw).trans_eq (h.exec e he).call)
        · exact .inr ⟨_, rfl, rfl, rfl⟩ }

theorem Inv.ends (h : Inv maxQueue s) (he : s.running = some e) (hv : VerdictOk s e (.ends o)) (htime : o = .timedOut → s.child = none) :
    Inv maxQueue (s.settle e.call o) := by
  refine h.settle (by rw [he]; rfl) htime (fun r hr w hw hcall => ?_) fun r id body ho => ?_
  · rw [h.runner_of_written he hw hcall, hv.exited r (by rw [hr])]
  · obtain ⟨hid, hrunner, hprinted⟩ := hv.answered r id body (by rw [ho])
    exact ⟨hprinted, hrunner ▸ (h.exec e he).written id hid⟩

theorem Inv.resume (h : Inv maxQueue s) (he : s.running = some e) (hv : e.race = some v) : Inv maxQueue (resume s e v) := by
  have hok := (h.exec e he).race v hv
  unfold TenantRunner.resume
  split
  · dsimp only
    split
    · exact (h.aside (s.nextId + 1) s.crashed rfl (List.Subset.refl _)).settle (by dsimp only; rw [he]; rfl) (by simp) (by simp) (by simp)
    · next c hc => exact h.write he (hok.ready rfl) hc s.nextId
  · exact h.stop.ends he { hok with } fun _ => rfl
  · next o ho => exact h.ends he hok fun heq => absurd heq ho

theorem Inv.step (h : Inv maxQueue s) (hown : own parse s l) (hstep : step parse maxQueue s l = some s') : Inv maxQueue s' := by
  unfold TenantRunner.step at hstep
  split at hstep
  · cases hstep
  cases l with
  | call =>
    dsimp only at hstep
    split at hstep
    · cases hstep
      exact h
    · next hroom =>
      cases hstep
      exact
        { h with
          exec := fun e he => { h.exec e he with race := fun v hv => { (h.exec e he).race v hv with } }
          settled := fun x hx => { h.settled x hx with }
          order := by rw [List.range_succ, ← h.order, List.append_assoc _ s.queue]
          counted := by
            have hcounted := h.counted
            dsimp only
            omega
          bounded := not_le.mp hroom }
  | begin spawns =>
    dsimp only at hstep
    split at hstep
    · next hnone hqueue =>
      cases hstep
      exact h.begin hnone hqueue spawns
    · cases hstep
  | resume =>
    obtain ⟨e, he, hrace⟩ := Option.bind_eq_some_iff.mp hstep
    obtain ⟨v, hv, rfl⟩ := Option.map_eq_some_iff.mp hrace
    exact h.resume he hv
  | timer =>
    obtain ⟨e, he, hrace⟩ := Option.bind_eq_some_iff.mp hstep
    split at hrace
    · cases hrace
    · cases hrace
      refine h.race he (fun _ => by cases e.race <;> nofun) fun v hv => ?_
      rcases Option.or_eq_some_iff.mp hv with hv | ⟨-, hv⟩
      · exact (h.exec e he).race v hv
      · cases hv
        exact ⟨nofun, nofun, nofun⟩
  | data r chunk =>
    obtain ⟨runner, hrunner, rfl⟩ := Option.map_eq_some_iff.mp hstep
    refine (h.aside s.nextId s.crashed (List.length_set ..) (List.Subset.refl _)).onLines fun line hline id c body htarget hanswer => ?_
    obtain ⟨e, he, hid, rfl⟩ := target_eq.mp htarget
    exact hown runner e id body hrunner he hid ⟨line, hline, hanswer⟩
  | gone r =>
    dsimp only at hstep
    split at hstep
    · cases hstep
      exact h.onGone
    · cases hstep
  | stop =>
    cases hstep
    exact h.stop
  | release =>
    dsimp only at hstep
    split at hstep
    · next hlt =>
      cases hstep
      have hcounted := h.counted
      have hlength := congrArg List.length h.order
      simp only [List.length_append, List.length_map, List.length_range] at hlength
      exact
        { h with
          exec := fun e he => { h.exec e he with race := fun v hv => { (h.exec e he).race v hv with } }
          settled := fun x hx => { h.settled x hx with }
          counted := by
            dsimp only
            omega
          released := hlt
          bounded := (Nat.sub_le _ _).trans h.bounded }
    · cases hstep

theorem inv_invariant : (system parse maxQueue).Invariant (own parse) (Inv maxQueue) where
  init hi := hi ▸ Inv.start
  step h hown hstep := h.step hown hstep

/-! ## Answers -/

/-- What holds of the calls. `fresh`: a call written after a timeout has a runner started since. `idle`: where no call can start or go on and no timer
can fire, all have settled. -/
structure Answered (parse : Text → Parsed β) (maxQueue : Nat) (s : State β) : Prop where
  one : ∀ w ∈ s.written, ∀ w' ∈ s.written, (∀ x ∈ s.settled, x.call ≠ w.call) → (∀ x ∈ s.settled, x.call ≠ w'.call) → w = w'
  order : s.settled.map (·.call) ++ (s.running.map (·.call)).toList ++ s.queue = List.range s.accepted
  written : s.written.Pairwise fun w w' => w.call < w'.call
  answered : ∀ x ∈ s.settled, ∀ r id body, x.outcome = .answered r id body → (r, id, body) ∈ s.printed ∧ ⟨x.call, id, r⟩ ∈ s.written
  exited : ∀ x ∈ s.settled, ∀ r, x.outcome = .exited r → ∀ w ∈ s.written, w.call = x.call → w.runner = r
  fresh : ∀ x ∈ s.settled, x.outcome = .timedOut → ∀ w ∈ s.written, x.call < w.call → x.spawned ≤ w.runner
  once : (s.settled.map (·.call)).Nodup
  idle : s.crashed = false → (∀ l ∈ [Label.begin true, .resume, .timer], step parse maxQueue s l = none) →
    s.settled.map (·.call) = List.range s.accepted
  bounded : s.waiting ≤ maxQueue ∧ s.queue.length + s.running.toList.length ≤ s.waiting

theorem Inv.idle (h : Inv maxQueue s) (hup : s.crashed = false)
    (hl : ∀ l ∈ [Label.begin true, .resume, .timer], TenantRunner.step parse maxQueue s l = none) :
    s.settled.map (·.call) = List.range s.accepted := by
  have hbegin := hl (.begin true) (by simp)
  have hresume := hl .resume (by simp)
  have htimer := hl .timer (by simp)
  simp only [TenantRunner.step, hup, Bool.false_eq_true, if_false] at hbegin hresume htimer
  match hrunning : s.running with
  | none =>
    rw [hrunning] at hbegin
    match hqueue : s.queue with
    | [] => simpa [hrunning, hqueue] using h.order
    | call :: queue =>
      rw [hqueue] at hbegin
      cases hbegin
  | some e =>
    rw [hrunning, Option.bind_some] at hresume htimer
    split at htimer
    · next hfired => exact absurd (Option.map_eq_none_iff.mp hresume) ((h.exec e hrunning).fired hfired)
    · cases htimer

def Outcome.answeredBy (o : Outcome β) (r id : Nat) : Bool :=
  match o with
  | .answered r' id' _ => r' = r && id' = id
  | _ => false

theorem Outcome.of_answeredBy {o : Outcome β} {r id : Nat} (h : o.answeredBy r id = true) : ∃ body, o = .answered r id body := by
  cases o with
  | answered r' id' body =>
    obtain ⟨hr, hid⟩ := Bool.and_eq_true_iff.mp h
    exact ⟨body, by rw [of_decide_eq_true hr, of_decide_eq_true hid]⟩
  | _ => cases h

def digit (t : Text) : Parsed Unit := .answer (t.head?.map (· - 48)) ()

end MailExpert.TenantRunner
