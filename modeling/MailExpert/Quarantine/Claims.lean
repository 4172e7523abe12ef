import MailExpert.Quarantine.System

/-!
# One run at a time

`KeepsHold` is what a step must meet for the claim to mean anything: no outcome is written over a final row or over
another run's young claim, a stale claim is taken over only while attempts are left, and a run makes its call while no
other run has claimed since. Under it calls are apart, a released row stays released, and no more than three calls
are made (`one_claim_at_a_time`).
-/

namespace MailExpert.Quarantine

/-- Run `i` may write an outcome: the row is not final, and not under a young claim of another run. -/
def State.mayRecord (s : State) (i : Nat) : Bool :=
  s.row.all fun row => row.state == .failed ||
    (row.state == .releasing && (s.claimer == some i || decide (row.updatedAt + CLAIM_STALE_MS < s.now)))

def State.recordsNext (s : State) (i : Nat) : Bool :=
  match s.runs[i]?.map Run.phase with
  | some (.next (.writes (.record _ _ _ _ _) _)) => true
  | _ => false

def KeepsHold (s : State) : Label → Prop
  | .write i => s.recordsNext i = true → s.mayRecord i = true
  | .claim _ => (s.row.all fun row => row.state != .releasing || decide (row.attempts < MAX_RELEASE_ATTEMPTS)) = true
  | .call i => s.claimer = some i
  | _ => True

instance (s : State) (l : Label) : Decidable (KeepsHold s l) := by
  cases l <;> unfold KeepsHold <;> infer_instance

/-- A call comes within the lease of another run's claim only when that run recorded a failure after its own call. -/
def Apart (log : List Event) : Prop :=
  ∀ later i t earlier, log = later ++ .called i t :: earlier →
    ∀ j t', .claimed j t' ∈ earlier → j ≠ i → t ≤ t' + CLAIM_STALE_MS → .failed j ∈ earlier

/-- A release call that was not answered as throttled. -/
def Run.callCounts (r : Run) : Bool := r.hasCalled && !r.wasThrottled

def State.isReleased (s : State) : Bool := s.row.any (·.state == .released)

/-- An attempt that was counted for a claim of the run and not given back. -/
def Run.charged (r : Run) : Bool := r.hasClaimed && !r.gaveBack

/-- What the flags of a run say at each of its stages. -/
def Phase.Fits (r : Run) : Phase → Prop
  | .reading _ _ _ | .next (.claims _) => r.hasClaimed = false
  | .next (.writes w _) => (r.hasClaimed = true → r.hasCalled = true) ∧ -1 ≤ w.attemptsDelta ∧
      (w.attemptsDelta < 0 → r.charged = true ∧ r.wasThrottled = true)
  | .claimed _ _ => r.hasClaimed = true ∧ r.hasCalled = false ∧ r.gaveBack = false
  | .calling _ _ => r.hasClaimed = true ∧ r.hasCalled = true ∧ r.gaveBack = false
  | .next (.ends _) | .over _ => True

structure Run.Ok (r : Run) : Prop where
  called : r.hasCalled = true → r.hasClaimed = true
  throttled : r.wasThrottled = true → r.hasCalled = true
  back : r.gaveBack = true → r.wasThrottled = true
  fits : r.phase.Fits r

theorem Run.callCounts_charged {r : Run} (h : r.Ok) (hr : r.callCounts = true) : r.charged = true := by
  simp only [Run.callCounts, Bool.and_eq_true, Bool.not_eq_true'] at hr
  simp only [Run.charged, Bool.and_eq_true, Bool.not_eq_true']
  refine ⟨h.called hr.1, ?_⟩
  by_contra hback
  simp [h.back (by simpa using hback)] at hr

theorem Run.Ok.over {r : Run} (h : r.Ok) {outcome : Option Outcome} : Run.Ok { r with phase := .over outcome } :=
  ⟨h.called, h.throttled, h.back, trivial⟩

/-- Nothing that a read leads to gives an attempt back. -/
theorem fits_afterRead {r : Run} {stored : Option Row} {domains : List String} {ruleOk : Bool}
    {answer : Except Thrown (Option Message)} (hr : r.hasClaimed = false) :
    (Phase.of (afterRead stored domains ruleOk answer)).Fits r := by
  have hwrites : ∀ {w : Write} {outcome : Option Outcome}, 0 ≤ w.attemptsDelta → (Phase.next (.writes w outcome)).Fits r :=
    fun hw => ⟨fun h => absurd h (by simp [hr]), by omega, fun h => by omega⟩
  unfold afterRead
  split
  · split
    · trivial
    split
    · exact hwrites le_rfl
    · exact hwrites (by simp [recordFailure, Write.attemptsDelta])
  · split
    · exact hwrites le_rfl
    · exact hwrites (by simp [recordFailure, Write.attemptsDelta])
  · unfold afterVerdict
    split
    · exact hwrites le_rfl
    · exact hwrites le_rfl
    · exact hwrites le_rfl
    · trivial
    · trivial
    · split
      · exact hwrites le_rfl
      · exact hr

/-- Of what the answer to a release leads to, only a throttled one gives the attempt back. -/
theorem fits_afterCall {r : Run} {f : Facts} {attempts : Nat} {answer : Except Thrown Unit}
    (hr : r.hasClaimed = true ∧ r.hasCalled = true ∧ r.gaveBack = false) (ht : r.wasThrottled = isThrottled answer) :
    (Phase.of (afterCall f attempts answer)).Fits r := by
  have hwrites : ∀ {w : Write} {outcome : Option Outcome}, 0 ≤ w.attemptsDelta → (Phase.next (.writes w outcome)).Fits r :=
    fun hw => ⟨fun _ => hr.2.1, by omega, fun h => by omega⟩
  unfold afterCall
  split
  · exact hwrites le_rfl
  next e =>
    dsimp only
    split
    next hthrottled =>
      refine ⟨fun _ => hr.2.1, le_rfl, fun _ => ⟨by simp [Run.charged, hr], ?_⟩⟩
      simp [ht, isThrottled, hthrottled]
    · exact hwrites le_rfl
    · exact hwrites le_rfl
    · exact hwrites le_rfl
    · exact hwrites le_rfl

/-- The run recorded a failure after its call, or its claim is older than the lease. -/
def State.Done (s : State) (i t : Nat) : Prop := .failed i ∈ s.log ∨ t + CLAIM_STALE_MS < s.now

/-- The attempts that claims hold. -/
def State.charges (s : State) : Nat := s.runs.countP Run.charged

structure ClaimInv (s : State) : Prop where
  ok : ∀ r ∈ s.runs, r.Ok
  claimed : ∀ i, s.claimer = some i → ∃ r, s.runs[i]? = some r ∧ r.hasClaimed = true
  bound : ∀ i t, .claimed i t ∈ s.log → i < s.runs.length
  past : ∀ row, s.row = some row → row.updatedAt ≤ s.now
  updated : ∀ i t, .claimed i t ∈ s.log → ∃ row, s.row = some row ∧ t ≤ row.updatedAt
  others : ∀ i t, .claimed i t ∈ s.log → s.claimer ≠ some i → s.Done i t
  failed : ∀ row, s.row = some row → row.state = .failed → ∀ i t, .claimed i t ∈ s.log → s.Done i t
  attempts : s.charges ≤ s.row.elim 0 (·.attempts)
  few : s.charges ≤ MAX_RELEASE_ATTEMPTS
  apart : Apart s.log

theorem Apart.cons {log : List Event} {e : Event} (h : Apart log)
    (he : ∀ i t, e = .called i t → ∀ j t', .claimed j t' ∈ log → j ≠ i → t ≤ t' + CLAIM_STALE_MS → .failed j ∈ log) :
    Apart (e :: log) := by
  intro later i t earlier heq
  cases later with
  | nil =>
    obtain ⟨rfl, rfl⟩ := List.cons.inj heq
    exact he i t rfl
  | cons first later => exact h later i t earlier (List.cons.inj heq).2

theorem countP_set {p : Run → Bool} {runs : List Run} {i : Nat} {r q : Run} (hi : runs[i]? = some r) :
    (runs.set i q).countP p + (p r).toNat = runs.countP p + (p q).toNat := by
  obtain ⟨hlt, rfl⟩ := List.getElem?_eq_some_iff.mp hi
  have hpos : p runs[i] = true → 0 < runs.countP p := fun h => List.countP_pos_iff.mpr ⟨_, List.getElem_mem hlt, h⟩
  rw [List.countP_set hlt]
  cases hr : p runs[i] with
  | false => cases p q <;> simp
  | true =>
    have := hpos hr
    cases p q <;> simp <;> omega

theorem countP_set_same {p : Run → Bool} {runs : List Run} {i : Nat} {r q : Run} (hi : runs[i]? = some r)
    (hp : p q = p r) : (runs.set i q).countP p = runs.countP p := by
  have h := countP_set (p := p) (q := q) hi
  rw [hp] at h
  omega

theorem Write.row_attempts {w : Write} {now : Nat} {row : Option Row} :
    (((row.elim 0 (·.attempts) : Nat) : Int) + w.attemptsDelta).toNat ≤ (w.row now row).elim 0 (·.attempts) := by
  cases w with
  | touch error => cases row <;> simp [Write.row, Write.attemptsDelta, Quarantine.touch]
  | record state f reason error delta => cases row <;> simp [Write.row, Write.attemptsDelta, Quarantine.record]
  | markReleased f byPanel =>
    cases row with
    | none => simp [Write.row, Write.attemptsDelta, Quarantine.markReleased]
    | some row =>
      by_cases hrow : row.state = .released
      · simp [Write.row, Write.attemptsDelta, Quarantine.markReleased, hrow]
      · simp [Write.row, Write.attemptsDelta, Quarantine.markReleased, hrow]

/-- A statement that writes the row stamps it, and never takes it away. -/
theorem Write.row_updated {w : Write} {now : Nat} {row : Row} (h : row.updatedAt ≤ now) :
    ∃ row', w.row now (some row) = some row' ∧ row.updatedAt ≤ row'.updatedAt := by
  cases w with
  | touch error => exact ⟨_, rfl, h⟩
  | record state f reason error delta => exact ⟨_, rfl, h⟩
  | markReleased f byPanel =>
    refine ⟨_, rfl, ?_⟩
    unfold Quarantine.markReleased
    by_cases hrow : row.state = .released
    · simp [hrow]
    · simpa [hrow] using h

theorem Write.row_now {w : Write} {now : Nat} {row : Option Row} {row' : Row} (hrow : ∀ r, row = some r → r.updatedAt ≤ now)
    (h : w.row now row = some row') : row'.updatedAt ≤ now := by
  cases w with
  | touch error =>
    obtain ⟨r, rfl, rfl⟩ := Option.map_eq_some_iff.mp h
    exact le_rfl
  | record state f reason error delta =>
    cases h
    cases row <;> exact le_rfl
  | markReleased f byPanel =>
    cases h
    cases row with
    | none => exact le_rfl
    | some r =>
      by_cases hr : r.state = .released
      · simpa [Quarantine.markReleased, hr] using hrow r rfl
      · simp [Quarantine.markReleased, hr]

/-- Only an outcome makes a row failed. -/
theorem Write.row_failed {w : Write} {now : Nat} {row : Option Row} {row' : Row} (h : w.row now row = some row')
    (hstate : row'.state = .failed) : w.recordsFailure = true ∨ ∃ r, row = some r ∧ r.state = .failed := by
  cases w with
  | touch error =>
    obtain ⟨r, hr, rfl⟩ := Option.map_eq_some_iff.mp h
    exact .inr ⟨r, hr, hstate⟩
  | record state f reason error delta =>
    cases h
    refine .inl ?_
    cases row <;> simpa [recordsFailure, Quarantine.record] using hstate
  | markReleased f byPanel =>
    cases h
    cases row with
    | none => cases hstate
    | some r =>
      by_cases hr : r.state = .released
      · simp [Quarantine.markReleased, hr] at hstate
      · simp [Quarantine.markReleased, hr] at hstate

theorem claim_eq_some {now : Nat} {f : Facts} {row : Option Row} {row' : Row} (h : claim now f row = some row') :
    row'.state = .releasing ∧ row'.attempts = row.elim 0 (·.attempts) + 1 ∧ row'.updatedAt = now ∧
      ∀ r, row = some r → (r.state = .failed ∧ r.attempts < MAX_RELEASE_ATTEMPTS) ∨
        (r.state = .releasing ∧ r.updatedAt + CLAIM_STALE_MS < now) := by
  cases row with
  | none =>
    cases h
    exact ⟨rfl, rfl, rfl, fun r hr => by cases hr⟩
  | some r =>
    simp only [claim] at h
    split at h
    next hr =>
      cases h
      refine ⟨rfl, rfl, rfl, fun r' hr' => ?_⟩
      cases hr'
      exact hr
    next => cases h

/-! ## The steps -/

namespace ClaimInv

variable {s : State} {i : Nat} {r r' : Run}

/-- A run goes on, and what its claim stands for stays the same. -/
theorem setRun (h : ClaimInv s) (hi : s.runs[i]? = some r) (hok : r'.Ok) (hcharged : r'.charged = r.charged)
    (hclaimed : r.hasClaimed = true → r'.hasClaimed = true) : ClaimInv (s.setRun i r') where
  ok r'' hr'' := by
    rcases List.mem_or_eq_of_mem_set hr'' with hr'' | rfl
    · exact h.ok r'' hr''
    · exact hok
  claimed j hj := by
    obtain ⟨rj, hrj, hc⟩ := h.claimed j hj
    by_cases hij : i = j
    · subst hij
      rw [hi] at hrj
      cases hrj
      refine ⟨r', ?_, hclaimed hc⟩
      simp [State.setRun, (List.getElem?_eq_some_iff.mp hi).1]
    · exact ⟨rj, by simpa [State.setRun, List.getElem?_set_ne hij] using hrj, hc⟩
  bound j t hj := by simpa [State.setRun] using h.bound j t hj
  past := h.past
  updated := h.updated
  others := h.others
  failed := h.failed
  attempts := by
    have := countP_set_same (p := Run.charged) hi hcharged
    simpa only [State.charges, State.setRun, this] using h.attempts
  few := by
    have := countP_set_same (p := Run.charged) hi hcharged
    simpa only [State.charges, State.setRun, this] using h.few
  apart := h.apart

/-- Its call, while no other run has claimed since. -/
theorem call (h : ClaimInv s) (hclaimer : s.claimer = some i) : ClaimInv { s with log := .called i s.now :: s.log } := by
  have hmem : ∀ {j t}, Event.claimed j t ∈ Event.called i s.now :: s.log → Event.claimed j t ∈ s.log :=
    fun hj => (List.mem_cons.mp hj).resolve_left (by simp)
  have hdone : ∀ {j t}, s.Done j t → State.Done { s with log := .called i s.now :: s.log } j t :=
    fun hd => hd.imp_left (List.mem_cons_of_mem _)
  refine ⟨h.ok, h.claimed, fun j t hj => h.bound j t (hmem hj), h.past, fun j t hj => h.updated j t (hmem hj),
    fun j t hj hne => hdone (h.others j t (hmem hj) hne), fun row hrow hf j t hj => hdone (h.failed row hrow hf j t (hmem hj)),
    h.attempts, h.few, h.apart.cons ?_⟩
  intro i' t heq j t' hj hne hwithin
  cases heq
  have hnot : s.claimer ≠ some j := fun hc => hne (Option.some.inj (hc.symm.trans hclaimer))
  rcases h.others j t' hj hnot with hfailed | hold
  · exact hfailed
  · omega

theorem claim (h : ClaimInv s) {f : Facts} {row : Row} (hi : s.runs[i]? = some r) (hphase : r.phase = .next (.claims f))
    (hclaim : Quarantine.claim s.now f s.row = some row)
    (hguard : (s.row.all fun row => row.state != .releasing || decide (row.attempts < MAX_RELEASE_ATTEMPTS)) = true) :
    ClaimInv { s with
      row := some row
      runs := s.runs.set i (r.granted f row.attempts)
      claimer := some i
      log := .claimed i s.now :: s.log } := by
  obtain ⟨hstate, hattempts, hupdated, hcases⟩ := claim_eq_some hclaim
  have hlt := (List.getElem?_eq_some_iff.mp hi).1
  have hok := h.ok r (List.mem_of_getElem? hi)
  have hr : r.hasClaimed = false := by
    have := hok.fits
    rwa [hphase] at this
  have hnotCalled : r.hasCalled = false := Bool.eq_false_iff.mpr fun h => by simp [hok.called h] at hr
  have hgave : r.gaveBack = false := Bool.eq_false_iff.mpr fun h => by simp [hok.throttled (hok.back h)] at hnotCalled
  -- a row that may be claimed has no claim that still counts
  have hdone : ∀ j t, Event.claimed j t ∈ s.log → s.Done j t := by
    intro j t hj
    obtain ⟨r₀, hr₀, ht⟩ := h.updated j t hj
    rcases hcases r₀ hr₀ with ⟨hf, -⟩ | ⟨-, hstale⟩
    · exact h.failed r₀ hr₀ hf j t hj
    · exact .inr (by omega)
  have hless : s.charges < MAX_RELEASE_ATTEMPTS := by
    have hle := h.attempts
    cases hrow : s.row with
    | none =>
      simp only [hrow, Option.elim_none] at hle
      unfold MAX_RELEASE_ATTEMPTS
      omega
    | some r₀ =>
      simp only [hrow, Option.elim_some] at hle
      rcases hcases r₀ hrow with ⟨-, hlt⟩ | ⟨hrel, -⟩
      · omega
      · have hg : r₀.attempts < MAX_RELEASE_ATTEMPTS := by simpa [hrow, hrel] using hguard
        omega
  have hcount := countP_set (p := Run.charged) (q := r.granted f row.attempts) hi
  have hbefore : r.charged = false := by simp [Run.charged, hr]
  have hafter : (r.granted f row.attempts).charged = true := by simp [Run.granted, Run.charged, hgave]
  rw [hbefore, hafter, Bool.toNat_false, Bool.toNat_true] at hcount
  have hmem : ∀ {j t}, Event.claimed j t ∈ Event.claimed i s.now :: s.log → (j = i ∧ t = s.now) ∨ Event.claimed j t ∈ s.log := by
    intro j t hj
    rcases List.mem_cons.mp hj with heq | hj
    · cases heq
      exact .inl ⟨rfl, rfl⟩
    · exact .inr hj
  refine ⟨fun r' hr' => ?_, ?_, ?_, ?_, ?_, ?_, ?_, ?_, ?_, h.apart.cons fun _ _ heq => by cases heq⟩
  · rcases List.mem_or_eq_of_mem_set hr' with hr' | rfl
    · exact h.ok r' hr'
    · exact ⟨fun _ => rfl, hok.throttled, hok.back, rfl, hnotCalled, hgave⟩
  · intro j hj
    cases hj
    exact ⟨_, List.getElem?_set_self hlt, rfl⟩
  · intro j t hj
    rw [List.length_set]
    rcases hmem hj with ⟨rfl, -⟩ | hj
    · exact hlt
    · exact h.bound j t hj
  · rintro _ ⟨⟩
    exact hupdated.le
  · intro j t hj
    refine ⟨row, rfl, ?_⟩
    rcases hmem hj with ⟨-, rfl⟩ | hj
    · exact hupdated.ge
    · obtain ⟨r₀, hr₀, ht⟩ := h.updated j t hj
      have := h.past r₀ hr₀
      omega
  · intro j t hj hne
    rcases hmem hj with ⟨rfl, -⟩ | hj
    · exact absurd rfl hne
    · exact (hdone j t hj).imp_left (List.mem_cons_of_mem _)
  · rintro _ ⟨⟩ hf
    simp [hstate] at hf
  · have := h.attempts
    simp only [State.charges, Option.elim_some] at this ⊢
    omega
  · simp only [State.charges] at hless ⊢
    omega

/-- A statement that writes the row, when an outcome comes only over a row it may be written over. -/
theorem write (h : ClaimInv s) {w : Write} {outcome : Option Outcome} (hi : s.runs[i]? = some r)
    (hphase : r.phase = .next (.writes w outcome)) (hguard : w.recordsFailure = true → s.mayRecord i = true) :
    ClaimInv (writeStep s i r w outcome) := by
  have hok := h.ok r (List.mem_of_getElem? hi)
  have hlt := (List.getElem?_eq_some_iff.mp hi).1
  obtain ⟨hcalled, hdelta, hgive⟩ : (r.hasClaimed = true → r.hasCalled = true) ∧ -1 ≤ w.attemptsDelta ∧
      (w.attemptsDelta < 0 → r.charged = true ∧ r.wasThrottled = true) := by
    have := hok.fits
    rwa [hphase] at this
  have hcharged : ((r.written w outcome).charged.toNat : Int) = r.charged.toNat + min 0 w.attemptsDelta := by
    by_cases hd : w.attemptsDelta < 0
    · have : (r.written w outcome).charged = false := by simp [Run.written, Run.charged, hd]
      rw [this, (hgive hd).1, Bool.toNat_false, Bool.toNat_true]
      omega
    · have : (r.written w outcome).charged = r.charged := by simp [Run.written, Run.charged, hd]
      rw [this]
      omega
  have hcount := countP_set (p := Run.charged) (q := r.written w outcome) hi
  have hmem : ∀ {j t}, Event.claimed j t ∈ (writeStep s i r w outcome).log → Event.claimed j t ∈ s.log := by
    intro j t hj
    simp only [writeStep] at hj
    split at hj
    · exact (List.mem_cons.mp hj).resolve_left (by simp)
    · exact hj
  have hlog : ∀ {e}, e ∈ s.log → e ∈ (writeStep s i r w outcome).log := by
    intro e he
    simp only [writeStep]
    split
    · exact List.mem_cons_of_mem _ he
    · exact he
  refine ⟨fun r'' hr'' => ?_, fun j hj => ?_, fun j t hj => ?_, fun row hrow => ?_, fun j t hj => ?_, fun j t hj hne => ?_,
    fun row hrow hf j t hj => ?_, ?_, ?_, ?_⟩
  · rcases List.mem_or_eq_of_mem_set hr'' with hr'' | rfl
    · exact h.ok r'' hr''
    · refine ⟨hok.called, hok.throttled, fun hb => ?_, trivial⟩
      rcases (Bool.or_eq_true_iff.mp hb) with hb | hb
      · exact hok.back hb
      · exact (hgive (by simpa using hb)).2
  · obtain ⟨rj, hrj, hc⟩ := h.claimed j hj
    by_cases hij : i = j
    · subst hij
      rw [hi] at hrj
      cases hrj
      exact ⟨r.written w outcome, by simp [writeStep, hlt], hc⟩
    · exact ⟨rj, by simpa [writeStep, List.getElem?_set_ne hij] using hrj, hc⟩
  · simpa [writeStep] using h.bound j t (hmem hj)
  · exact Write.row_now h.past hrow
  · obtain ⟨row, hrow, ht⟩ := h.updated j t (hmem hj)
    obtain ⟨row', hrow', hle⟩ := Write.row_updated (w := w) (h.past row hrow)
    exact ⟨row', by simpa only [writeStep, hrow] using hrow', ht.trans hle⟩
  · exact (h.others j t (hmem hj) hne).imp_left hlog
  · -- an outcome is written over a row whose claims are done, or by the run that claimed last
    rcases Write.row_failed hrow hf with hrec | ⟨row₀, hrow₀, hf₀⟩
    swap
    · exact (h.failed row₀ hrow₀ hf₀ j t (hmem hj)).imp_left hlog
    obtain ⟨row₀, hrow₀, ht⟩ := h.updated j t (hmem hj)
    have hmay := hguard hrec
    simp only [State.mayRecord, hrow₀, Option.all_some, Bool.or_eq_true, Bool.and_eq_true, beq_iff_eq, decide_eq_true_eq] at hmay
    rcases hmay with hf₀ | ⟨-, hown | hstale⟩
    · exact (h.failed row₀ hrow₀ hf₀ j t (hmem hj)).imp_left hlog
    · by_cases hji : s.claimer = some j
      · obtain rfl : i = j := Option.some.inj (hown.symm.trans hji)
        obtain ⟨ri, hri, hc⟩ := h.claimed i hown
        rw [hi] at hri
        cases hri
        refine .inl ?_
        simp [writeStep, hcalled hc, hrec]
      · exact (h.others j t (hmem hj) hji).imp_left hlog
    · exact .inr (by simp only [writeStep]; omega)
  · have hle := h.attempts
    have hrow := @Write.row_attempts w s.now s.row
    simp only [State.charges, writeStep] at hle ⊢
    omega
  · have hle := h.few
    simp only [State.charges, writeStep] at hle ⊢
    omega
  · simp only [writeStep]
    split
    · exact h.apart.cons fun _ _ heq => by cases heq
    · exact h.apart

/-- A run that is to record an outcome shows it. -/
theorem recordsNext_of {w : Write} {outcome : Option Outcome} (hi : s.runs[i]? = some r)
    (hphase : r.phase = .next (.writes w outcome)) (hw : w.recordsFailure = true) : s.recordsNext i = true := by
  cases w with
  | record state f reason error delta => simp [State.recordsNext, hi, hphase]
  | touch error => cases hw
  | markReleased f byPanel => cases hw

theorem runStep (h : ClaimInv s) {s' : State} {l : Label} (hi : s.runs[i]? = some r) (hl : l.run? = some i)
    (hguard : KeepsHold s l) (hstep : Quarantine.runStep s i r l = some s') : ClaimInv s' := by
  have hok := h.ok r (List.mem_of_getElem? hi)
  have hfits := hok.fits
  cases l with
  | read j answer =>
    simp only [Quarantine.runStep] at hstep
    split at hstep
    next stored domains ruleOk hphase =>
      cases hstep
      rw [hphase] at hfits
      exact h.setRun hi ⟨hok.called, hok.throttled, hok.back, fits_afterRead hfits⟩ rfl id
    next => cases hstep
  | write j =>
    obtain rfl : j = i := Option.some.inj hl
    simp only [Quarantine.runStep] at hstep
    split at hstep
    next w outcome hphase =>
      cases hstep
      exact h.write hi hphase fun hw => hguard (recordsNext_of hi hphase hw)
    next => cases hstep
  | claim j =>
    simp only [Quarantine.runStep] at hstep
    split at hstep
    next f hphase =>
      cases hstep
      unfold claimStep
      split
      next row hclaim => exact h.claim hi hphase hclaim hguard
      next => exact h.setRun hi hok.over rfl id
    next => cases hstep
  | call j =>
    obtain rfl : j = i := Option.some.inj hl
    simp only [Quarantine.runStep] at hstep
    split at hstep
    next f attempts hphase =>
      cases hstep
      rw [hphase] at hfits
      refine (show ClaimInv (s.setRun j { r with phase := .calling f attempts, hasCalled := true }) from
        h.setRun hi ?_ rfl id).call hguard
      exact ⟨fun _ => hfits.1, fun _ => rfl, hok.back, hfits.1, rfl, hfits.2.2⟩
    next => cases hstep
  | answer j answer =>
    simp only [Quarantine.runStep] at hstep
    split at hstep
    next f attempts hphase =>
      cases hstep
      rw [hphase] at hfits
      refine h.setRun hi ⟨hok.called, fun _ => hfits.2.1, fun hb => ?_, fits_afterCall hfits rfl⟩ rfl id
      simp [hfits.2.2] at hb
    next => cases hstep
  | die j =>
    cases hstep
    exact h.setRun hi hok.over rfl id
  | apply j =>
    simp only [Quarantine.runStep] at hstep
    split at hstep
    · cases hstep
      exact { h with }
    · cases hstep
  | start domains ruleOk => cases hl
  | releaseElsewhere => cases hl
  | tick ms => cases hl

theorem step (h : ClaimInv s) {s' : State} {l : Label} (hguard : KeepsHold s l) (hstep : Quarantine.step s l = some s') :
    ClaimInv s' := by
  have hrun : (hl : (l.run?.bind fun i => s.runs[i]?.bind fun r => Quarantine.runStep s i r l) = some s') → ClaimInv s' := by
    intro hl
    obtain ⟨i, hli, hl⟩ := Option.bind_eq_some_iff.mp hl
    obtain ⟨r, hi, hl⟩ := Option.bind_eq_some_iff.mp hl
    exact h.runStep hi hli hguard hl
  cases l with
  | start domains ruleOk =>
    simp only [Quarantine.step] at hstep
    split at hstep
    · cases hstep
      refine { h with ok := fun r hr => ?_, claimed := fun i hi => ?_, bound := fun i t hit => ?_, attempts := ?_, few := ?_ }
      · rcases List.mem_append.mp hr with hr | hr
        · exact h.ok r hr
        · rw [List.mem_singleton.mp hr]
          exact ⟨id, id, id, rfl⟩
      · obtain ⟨r, hr, hc⟩ := h.claimed i hi
        exact ⟨r, by simpa [List.getElem?_append_left (List.getElem?_eq_some_iff.mp hr).1] using hr, hc⟩
      · have := h.bound i t hit
        simp only [List.length_append]
        omega
      · simpa [State.charges, Run.charged] using h.attempts
      · simpa [State.charges, Run.charged] using h.few
    · cases hstep
  | releaseElsewhere =>
    simp only [Quarantine.step] at hstep
    split at hstep
    · cases hstep
      exact { h with }
    · cases hstep
  | tick ms =>
    cases hstep
    have hdone : ∀ {i t}, s.Done i t → State.Done { s with now := s.now + ms } i t :=
      fun hd => hd.imp_right fun hlt => Nat.lt_of_lt_of_le hlt (Nat.le_add_right _ _)
    exact { h with
      past := fun row hrow => (h.past row hrow).trans (Nat.le_add_right _ _)
      others := fun i t hit hne => hdone (h.others i t hit hne)
      failed := fun row hrow hf i t hit => hdone (h.failed row hrow hf i t hit) }
  | read i answer => exact hrun hstep
  | write i => exact hrun hstep
  | claim i => exact hrun hstep
  | call i => exact hrun hstep
  | answer i answer => exact hrun hstep
  | die i => exact hrun hstep
  | apply i => exact hrun hstep

theorem init (h : system.init s) : ClaimInv s := by
  obtain ⟨hrow, hruns, -, -, hclaimer, hlog⟩ := h
  refine ⟨fun r hr => ?_, fun i hi => ?_, fun i t hit => ?_, fun row h => ?_, fun i t hit => ?_, fun i t hit => ?_,
    fun row h => ?_, ?_, ?_, fun later i t earlier heq => ?_⟩
  · simp [hruns] at hr
  · simp [hclaimer] at hi
  · simp [hlog] at hit
  · simp [hrow] at h
  · simp [hlog] at hit
  · simp [hlog] at hit
  · simp [hrow] at h
  · simp [State.charges, hruns]
  · simp [State.charges, hruns]
  · simp [hlog] at heq

end ClaimInv

/-! ## A released row -/

/-- Only an outcome takes a row out of `released`. -/
theorem Write.row_released {w : Write} {now : Nat} {row : Row} (hw : ∀ state f reason error delta, w ≠ .record state f reason error delta)
    (hrow : row.state = .released) : ∃ row', w.row now (some row) = some row' ∧ row'.state = .released := by
  cases w with
  | touch error => exact ⟨_, rfl, hrow⟩
  | record state f reason error delta => exact absurd rfl (hw state f reason error delta)
  | markReleased f byPanel => exact ⟨_, rfl, by simp [Quarantine.markReleased, hrow]⟩

theorem claim_released {now : Nat} {f : Facts} {row : Row} (h : row.state = .released) : claim now f (some row) = none := by
  simp [claim, h]

theorem isReleased_iff {s : State} : s.isReleased = true ↔ ∃ row, s.row = some row ∧ row.state = .released := by
  simp [State.isReleased, Option.any_eq_true]

theorem isReleased_step {s s' : State} {l : Label} (hguard : KeepsHold s l) (hstep : step s l = some s')
    (h : s.isReleased = true) : s'.isReleased = true := by
  obtain ⟨row, hrow, hreleased⟩ := isReleased_iff.mp h
  have hrun : (l.run?.bind fun i => s.runs[i]?.bind fun r => runStep s i r l) = some s' → s'.isReleased = true := by
    intro hl
    obtain ⟨i, hli, hl⟩ := Option.bind_eq_some_iff.mp hl
    obtain ⟨r, hi, hl⟩ := Option.bind_eq_some_iff.mp hl
    cases l with
    | read j answer =>
      simp only [runStep] at hl
      split at hl
      · cases hl
        exact h
      · cases hl
    | write j =>
      obtain rfl : j = i := Option.some.inj hli
      simp only [runStep] at hl
      split at hl
      next w outcome hphase =>
        cases hl
        have hw : ∀ state f reason error delta, w ≠ .record state f reason error delta := by
          rintro state f reason error delta rfl
          have hmay := hguard (by simp [State.recordsNext, hi, hphase])
          simp [State.mayRecord, hrow, hreleased] at hmay
        obtain ⟨row', hrow', hreleased'⟩ := @Write.row_released _ s.now _ hw hreleased
        exact isReleased_iff.mpr ⟨row', by simpa only [writeStep, hrow] using hrow', hreleased'⟩
      next => cases hl
    | claim j =>
      simp only [runStep] at hl
      split at hl
      next f hphase =>
        cases hl
        have hbusy : (claimStep s i r f).row = s.row := by simp [claimStep, hrow, claim_released hreleased, State.setRun]
        simpa only [State.isReleased, hbusy] using h
      next => cases hl
    | call j =>
      simp only [runStep] at hl
      split at hl
      · cases hl
        exact h
      · cases hl
    | answer j answer =>
      simp only [runStep] at hl
      split at hl
      · cases hl
        exact h
      · cases hl
    | die j =>
      cases hl
      exact h
    | apply j =>
      simp only [runStep] at hl
      split at hl
      · cases hl
        exact h
      · cases hl
    | start domains ruleOk => cases hli
    | releaseElsewhere => cases hli
    | tick ms => cases hli
  cases l with
  | start domains ruleOk =>
    simp only [step] at hstep
    split at hstep
    · cases hstep
      exact h
    · cases hstep
  | releaseElsewhere =>
    simp only [step] at hstep
    split at hstep
    · cases hstep
      exact h
    · cases hstep
  | tick ms =>
    cases hstep
    exact h
  | read i answer => exact hrun hstep
  | write i => exact hrun hstep
  | claim i => exact hrun hstep
  | call i => exact hrun hstep
  | answer i answer => exact hrun hstep
  | die i => exact hrun hstep
  | apply i => exact hrun hstep

theorem init_empty : system.init {} := ⟨rfl, rfl, rfl, rfl, rfl, rfl⟩

theorem claimInv : system.Invariant KeepsHold ClaimInv := ⟨ClaimInv.init, fun h hg hstep => h.step hg hstep⟩

/-- In every run whose steps keep the hold: a release call comes within the lease of another run's claim only when
that run recorded a failure after its own call, no more than three calls count, and a released row stays released. -/
theorem one_claim_at_a_time {s : State} (h : system.ReachesUnder KeepsHold s) :
    Apart s.log ∧ s.runs.countP Run.callCounts ≤ MAX_RELEASE_ATTEMPTS ∧
      ∀ t, system.Run KeepsHold s t → s.isReleased = true → t.isReleased = true := by
  have hinv := claimInv.reachesUnder h
  refine ⟨hinv.apart, (List.countP_mono_left fun r hr hc => ?_).trans hinv.few, fun t hrun hs => ?_⟩
  · exact Run.callCounts_charged (hinv.ok r hr) hc
  · induction hrun with
    | refl => exact hs
    | tail _ hg hstep ih => exact isReleased_step hg hstep ih

section Fails

def letter : Message where
  quarantineTypes := [.highConfPhish]
  type := []
  inbound := true
  releaseStatus := .notReleased
  facts := { recipients := [{ name := "anna", domain := "example.org" }] }

def claimedCall (i : Nat) : List Label := [.read i (.ok (some letter)), .claim i, .call i]

theorem one_claim_at_a_time_released :
    ∃ s, system.Reachable s ∧ s.isReleased = true ∧ Apart s.log ∧ s.runs.countP Run.callCounts ≤ MAX_RELEASE_ATTEMPTS := by
  have htrace : (system.exec KeepsHold {} (.start ["example.org"] true :: claimedCall 0 ++ [.answer 0 (.ok ()), .write 0])).any
      (fun s => decide (s.isReleased = true)) = true := by decide
  obtain ⟨s, hs, hp⟩ := TransitionSystem.reaches_of_exec init_empty htrace
  have hclaims := one_claim_at_a_time hs
  exact ⟨s, hs.reachable, by simpa using hp, hclaims.1, hclaims.2.1⟩

def lostRead : Thrown := { failure := .other, text := "exo_failed: " }

/-- While one run's call is out, a run that knew no row records that it could not read the message, and a third run
claims the message and releases it again. -/
theorem released_twice :
    ¬∀ s, system.Reachable s → Apart s.log ∧ s.runs.countP Run.callCounts ≤ MAX_RELEASE_ATTEMPTS ∧
      ∀ t, system.Run TransitionSystem.anyStep s t → s.isReleased = true → t.isReleased = true := by
  intro hall
  have htrace : (system.exec TransitionSystem.anyStep {} (.start ["example.org"] true :: .start ["example.org"] true ::
      claimedCall 0 ++ [.read 1 (.error lostRead), .write 1, .start ["example.org"] true] ++ claimedCall 2)).any
      (fun s => decide (s.log = [.called 2 0, .claimed 2 0, .called 0 0, .claimed 0 0])) = true := by decide
  obtain ⟨s, hs, hp⟩ := TransitionSystem.reaches_of_exec init_empty htrace
  have hlog : s.log = [.called 2 0, .claimed 2 0, .called 0 0, .claimed 0 0] := by simpa using hp
  have hfailed := (hall s hs).1 [] 2 0 _ hlog 0 0 (by simp) (by decide) (by decide)
  simp at hfailed

end Fails

end MailExpert.Quarantine
