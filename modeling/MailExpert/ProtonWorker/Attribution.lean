import MailExpert.ProtonWorker.Holder

/-!
# A login event belongs to its attempt

The controller attributes a login event to the operation that holds the slot when the event gets the lock. That is the
operation of the event's own login (`Attributed`) in every run without these steps (`AttributionGuard`): an event of an
earlier Bridge process that still waited for the lock when another attempt had the slot; and a restart that reconciles the
slot's ended operation although the process in place, which `_recover` started or a failed recovery was recorded for, may
still report on its login.
-/

namespace MailExpert.ProtonWorker

/-- The event is one of login `k`. -/
def Event.isOf (k : Nat) : Event → Bool
  | .login k' _ => k' = k
  | _ => false

namespace State

/-- Login `k` of the process in place may still report. -/
def Reports (s : State) (k : Nat) : Prop :=
  s.bridge.isOpen k = true ∨ (∃ e, .login k e ∈ s.bridge.queue) ∨ ∃ e, (s.bridge.epoch, .login k e) ∈ s.waiting

/-- The same, as a test. -/
def reports? (s : State) (k : Nat) : Bool :=
  s.bridge.isOpen k || s.bridge.queue.any (·.isOf k) || s.waiting.any fun w => w.1 = s.bridge.epoch && w.2.isOf k

theorem Event.isOf_eq_true {k : Nat} {e : Event} : e.isOf k = true ↔ ∃ e', e = .login k e' := by
  cases e <;> simp [Event.isOf]

theorem reports?_eq_true {s : State} {k : Nat} : s.reports? k = true ↔ s.Reports k := by
  simp only [reports?, Reports, Bool.or_eq_true, List.any_eq_true, Bool.and_eq_true, decide_eq_true_eq, Event.isOf_eq_true,
    or_assoc]
  constructor
  · rintro (h | ⟨_, hmem, e, rfl⟩ | ⟨⟨ep, _⟩, hmem, rfl, e, rfl⟩)
    · exact .inl h
    · exact .inr (.inl ⟨e, hmem⟩)
    · exact .inr (.inr ⟨e, hmem⟩)
  · rintro (h | ⟨e, hmem⟩ | ⟨e, hmem⟩)
    · exact .inl h
    · exact .inr (.inl ⟨_, hmem, e, rfl⟩)
    · exact .inr (.inr ⟨_, hmem, rfl, e, rfl⟩)

/-- The slot's operation has ended, and the process in place may still report on its login. -/
def unsettled (s : State) : Bool :=
  (s.accounts.holder.any fun op => op.state.terminal) && s.reports? (s.bridge.logins.length - 1)

def inTime (s : State) : Nat × Event → Bool
  | (epoch, .login k _) => epoch = s.bridge.epoch || s.accounts.slot.isNone || k + 1 = s.bridge.logins.length
  | _ => true

end State

open State in
def AttributionGuard (s : State) : Label → Prop
  | .deliver i _ => (s.waiting[i]?.all s.inTime) = true
  | .recovered _ => (s.recovery = some false → s.bridge.running = false) ∧ (s.recovery = some true → s.unsettled = false)
  | .credentials .. | .remove .. | .endSnapshot .. | .tick _ | .boot _ =>
    s.started = false → s.bridge.running = true → s.unsettled = false
  | _ => True

instance (s : State) (l : Label) : Decidable (AttributionGuard s l) := by
  cases l <;> unfold AttributionGuard <;> infer_instance

namespace State

variable {cfg : Config} {s s' : State} {n : Native}

/-- The event ends its login, and so no later one is of that login. -/
def Follows (e e' : Event) : Prop := ∀ k e₁ e₂, e = .login k e₁ → e' = .login k e₂ → e₁.outcome? = none

/-- The event is on its way to the controller. -/
def Sent (s : State) (e : Event) : Prop := e ∈ s.bridge.queue ∨ ∃ epoch, (epoch, e) ∈ s.waiting

structure Streams (s : State) : Prop where
  epochs : ∀ l ∈ s.bridge.logins, l.epoch ≤ s.bridge.epoch
  waited : ∀ w ∈ s.waiting, w.1 ≤ s.bridge.epoch
  ordered : s.waiting.Pairwise fun w w' => w.1 < w'.1
  causes : ∀ k e, s.Sent (.login k e) → k < s.bridge.logins.length
  ended : ∀ k e o, s.Sent (.login k e) → e.outcome? = some o → ∃ l, s.bridge.logins[k]? = some l ∧ l.outcome = some o
  order : (s.waiting.map (·.2) ++ s.bridge.queue).Pairwise Follows

/-- The slot is that of the last login, whose end its operation knows only from Bridge. -/
def Owned (a : Accounts) (logins : List Login) : Prop :=
  ∀ id, a.slot = some id → ∃ l, logins.getLast? = some l ∧ l.op = id ∧
    ∀ op, a.holder = some op → op.userId.isSome = true → l.outcome.isSome = true

/-- The last login alone may still report, for the operation that holds the slot. -/
structure Live (cfg : Config) (s : State) : Prop where
  last : Owned s.accounts s.bridge.logins
  reports : ∀ k, s.Reports k → k + 1 = s.bridge.logins.length ∧ ∃ op, s.accounts.holder = some op ∧ op.userId = none ∧
    op.state ≠ .checking ∧
      (op.reconcile = true → s.bridge.running = true → ∃ t, op.endedAt = some t ∧ t + cfg.recoverySeconds ≤ s.now)
  idle : s.started = false → s.bridge.running = true → s.accounts.slot = none ∨ s.recovery.isSome = true

structure Attributed (cfg : Config) (s : State) : Prop where
  streams : s.Streams
  live : s.Live cfg

theorem isOpen_eq_true {b : Bridge} {k : Nat} :
    b.isOpen k = true ↔ b.running = true ∧ ∃ l, b.logins[k]? = some l ∧ l.epoch = b.epoch ∧ l.outcome = none := by
  simp [Bridge.isOpen, Option.any_eq_true]

theorem Attributed.persist (h : s.Attributed cfg) : s.persist.Attributed cfg := ⟨{ h.streams with }, { h.live with }⟩

/-- Without a slot no login may report. -/
theorem Live.of_slot_none (h : s.Live cfg) (hslot : s.accounts.slot = none) (k : Nat) : ¬s.Reports k := fun hk => by
  obtain ⟨-, op, hop, -⟩ := h.reports k hk
  simp [Accounts.holder_none hslot] at hop

theorem unsettled_of_silent (hsilent : ∀ k, ¬s.Reports k) : s.unsettled = false := by
  unfold unsettled
  rw [Bool.and_eq_false_iff]
  refine .inr (Bool.eq_false_iff.mpr fun h => ?_)
  exact hsilent _ (reports?_eq_true.mp h)

/-- Where the last login may report, its operation has not ended. -/
theorem Live.not_terminal {op : Operation} {k : Nat} (h : s.Live cfg) (hset : s.unsettled = false) (hk : s.Reports k)
    (hop : s.accounts.holder = some op) : op.state.terminal = false := by
  obtain ⟨hlast, -⟩ := h.reports k hk
  obtain rfl : k = s.bridge.logins.length - 1 := by omega
  rw [unsettled, Bool.and_eq_false_iff] at hset
  rcases hset with hset | hset
  · simpa [hop] using hset
  · simp [reports?_eq_true.mpr hk] at hset

/-! ## Steps of the accounts -/

theorem Owned.settles {a b : Accounts} {logins : List Login} (h : Owned a logins) (ha : a.Settles b) : Owned b logins := fun id hid => by
  rcases ha with ha | ⟨hslot, -⟩
  · obtain ⟨l, hl, hop, hout⟩ := h id (ha.slot.symm.trans hid)
    refine ⟨l, hl, hop, fun op' hop' hsome => ?_⟩
    obtain ⟨-, hnone⟩ | ⟨op, op₁, hop, hop₁, hstill⟩ := ha.kept
    · simp [hnone] at hop'
    · obtain rfl : op' = op₁ := Option.some.inj (hop'.symm.trans hop₁)
      exact hout op hop (hstill.userId ▸ hsome)
  · simp [hslot] at hid

theorem Live.settles {a : Accounts} (h : s.Live cfg) (ha : s.accounts.Settles a) : ({ s with accounts := a } : State).Live cfg := by
  refine ⟨h.last.settles ha, fun k hk => ?_, fun hst hrun => ?_⟩
  · obtain ⟨hlast, op, hop, huser, hcheck, hmark⟩ := h.reports k hk
    rcases ha with ha | ⟨-, hall⟩
    · obtain ⟨hnone, -⟩ | ⟨op₀, op', hop₀, hop', hstill⟩ := ha.kept
      · simp [hop] at hnone
      · obtain rfl : op = op₀ := Option.some.inj (hop.symm.trans hop₀)
        refine ⟨hlast, op', hop', hstill.userId.trans huser, fun hc => hcheck (hstill.checking hc), fun hm hrun => ?_⟩
        obtain ⟨hm, hend⟩ := hstill.marked hm
        rw [hend]
        exact hmark hm hrun
    · exact absurd (hall op hop) hcheck
  · rcases h.idle hst hrun with hslot | hrec
    · refine .inl ?_
      rcases ha.slot with heq | heq
      · exact heq.trans hslot
      · exact heq
    · exact .inr hrec

theorem Attributed.settles {a : Accounts} (h : s.Attributed cfg) (ha : s.accounts.Settles a) :
    ({ s with accounts := a } : State).Attributed cfg :=
  ⟨{ h.streams with }, h.live.settles ha⟩

theorem Attributed.keeps {a : Accounts} (h : s.Attributed cfg) (ha : s.accounts.Keeps a) :
    ({ s with accounts := a } : State).Attributed cfg :=
  h.settles (.inl ha)

/-- A mark or a new end of an operation counts only while its login may report to Bridge. -/
theorem Attributed.marks {id : OpId} {f : Operation → Operation} (h : s.Attributed cfg)
    (hsilent : s.bridge.running = true → ∀ k, ¬s.Reports k) (hf : ∀ op, (f op).userId = op.userId ∧ (f op).state = op.state) :
    ({ s with accounts := s.accounts.modify id f } : State).Attributed cfg := by
  have hholder : ∀ op, s.accounts.holder = some op →
      ∃ op', (s.accounts.modify id f).holder = some op' ∧ op'.userId = op.userId ∧ op'.state = op.state := fun op hop => by
    obtain ⟨c, hc, hop⟩ := Accounts.holder_eq_some.mp hop
    have hlookup : (s.accounts.modify id f).holder = (s.accounts.modify id f).operations.lookup c := Accounts.holder_of_slot hc
    rw [hlookup, Accounts.lookup_modify]
    split
    next heq => exact ⟨f op, by rw [← heq, hop]; rfl, hf op⟩
    next => exact ⟨op, hop, rfl, rfl⟩
  refine ⟨{ h.streams with }, fun c hc => ?_, fun k hk => ?_, h.live.idle⟩
  · obtain ⟨l, hl, hop, hout⟩ := h.live.last c hc
    refine ⟨l, hl, hop, fun op' hop' hsome => ?_⟩
    obtain ⟨c', hc', hop'⟩ := Accounts.holder_eq_some.mp hop'
    have hc' : s.accounts.slot = some c' := hc'
    obtain ⟨heq, op, hop, rfl⟩ | ⟨-, hop⟩ := Accounts.lookup_modify_some.mp hop'
    · subst heq
      exact hout op (Accounts.holder_eq_some.mpr ⟨_, hc', hop⟩) ((hf op).1 ▸ hsome)
    · exact hout op' (Accounts.holder_eq_some.mpr ⟨_, hc', hop⟩) hsome
  · obtain ⟨hlast, op, hop, huser, hcheck, -⟩ := h.live.reports k hk
    obtain ⟨op', hop', huser', hstate⟩ := hholder op hop
    refine ⟨hlast, op', hop', huser'.trans huser, fun hc => hcheck (hstate ▸ hc), fun _ hrun => ?_⟩
    exact absurd hk (hsilent hrun k)

theorem Owned.rows {a b : Accounts} {logins : List Login} (h : Owned a logins) (hrows : a.Rows b)
    (hslot : b.slot = a.slot ∨ b.slot = none) : Owned b logins := fun id hid => by
  have hid' : a.slot = some id := by
    rcases hslot with heq | heq
    · exact heq ▸ hid
    · simp [heq] at hid
  obtain ⟨l, hl, hop, hout⟩ := h id hid'
  refine ⟨l, hl, hop, fun op' hop' hsome => ?_⟩
  obtain ⟨c, hc, hop'⟩ := Accounts.holder_eq_some.mp hop'
  obtain rfl : id = c := Option.some.inj (hid.symm.trans hc)
  obtain ⟨op, hop, heq, -⟩ := hrows id op' hop'
  refine hout op (Accounts.holder_eq_some.mpr ⟨id, hid', hop⟩) ?_
  rw [heq] at hsome
  exact hsome

/-- A reconciliation keeps the slot of an attempt whose login may still report. -/
theorem Attributed.reconciled {a : Accounts} (h : s.Attributed cfg) (hwf : s.accounts.Wf) (hawf : a.Wf)
    (hset : s.unsettled = false) (hrows : s.accounts.Rows a)
    (hslot : a.slot = s.accounts.slot ∨ a.slot = none ∧ ∀ op, s.accounts.holder = some op → op.state.terminal = true) :
    ({ s with accounts := a } : State).Attributed cfg := by
  refine ⟨{ h.streams with }, h.live.last.rows hrows (hslot.imp (fun h => h) fun h => h.1), fun k hk => ?_, fun hst hrun => ?_⟩
  · have hk : s.Reports k := hk
    obtain ⟨hlast, op, hop, huser, hcheck, -⟩ := h.live.reports k hk
    have hterm := h.live.not_terminal hset hk hop
    rcases hslot with hslot | ⟨-, hall⟩
    · obtain ⟨id, hid, hop⟩ := Accounts.holder_eq_some.mp hop
      obtain ⟨op', hop'⟩ := hawf.slot id (hslot.trans hid)
      obtain ⟨op₀, h₀, heq, hmark⟩ := hrows id op' hop'
      obtain rfl : op₀ = op := Option.some.inj (h₀.symm.trans hop)
      refine ⟨hlast, op', Accounts.holder_eq_some.mpr ⟨id, hslot.trans hid, hop'⟩, ?_, ?_, fun hm _ => ?_⟩
      · rw [heq]
        exact huser
      · rw [heq]
        exact hcheck
      · simp [(hwf.marked hop (hmark hm)).1] at hterm
    · simp [hall op hop] at hterm
  · rcases h.live.idle hst hrun with hnone | hrec
    · refine .inl ?_
      rcases hslot with heq | ⟨heq, -⟩
      · exact heq.trans hnone
      · exact heq
    · exact .inr hrec

theorem Attributed.afterRestart (h : s.Attributed cfg) (hwf : s.accounts.Wf) (hset : s.unsettled = false) :
    (s.afterRestart n).Attributed cfg := by
  obtain ⟨timers, heq⟩ := @afterRestart_eq s n
  rw [heq]
  have h' := h.reconciled hwf (Accounts.Wf.restarted hwf) hset restarted_rows.1 (restarted_slot (n := n) hwf)
  exact ⟨{ h'.streams with }, { h'.live with }⟩

/-- The events of `t` are some of those of `s`. -/
structure Fewer (s t : State) : Prop where
  logins : t.bridge.logins = s.bridge.logins
  epoch : s.bridge.epoch ≤ t.bridge.epoch
  waiting : t.waiting.Sublist s.waiting
  queue : ∃ q e, t.bridge.queue = q ++ e ∧ q.Sublist s.bridge.queue ∧ ∀ k e', Event.login k e' ∉ e

theorem Fewer.sent {t : State} {k : Nat} {e : LoginEvent} (h : s.Fewer t) (he : t.Sent (.login k e)) : s.Sent (.login k e) := by
  obtain ⟨q, e', hq, hsub, hno⟩ := h.queue
  rcases he with he | ⟨epoch, he⟩
  · rw [hq, List.mem_append] at he
    rcases he with he | he
    · exact .inl (hsub.subset he)
    · exact absurd he (hno k e)
  · exact .inr ⟨epoch, h.waiting.subset he⟩

theorem Streams.fewer {t : State} (h : s.Streams) (hf : s.Fewer t) : t.Streams where
  epochs l hl := (h.epochs l (hf.logins ▸ hl)).trans hf.epoch
  waited w hw := (h.waited w (hf.waiting.subset hw)).trans hf.epoch
  ordered := h.ordered.sublist hf.waiting
  causes k e he := hf.logins ▸ h.causes k e (hf.sent he)
  ended k e o he ho := hf.logins ▸ h.ended k e o (hf.sent he) ho
  order := by
    obtain ⟨q, e, hq, hsub, hno⟩ := hf.queue
    rw [hq, ← List.append_assoc, List.pairwise_append]
    refine ⟨h.order.sublist ((hf.waiting.map _).append hsub), ?_, fun e₁ _ e₂ he₂ k _ e' _ heq => ?_⟩
    · exact List.pairwise_of_forall_mem_list fun e₁ _ e₂ he₂ k _ e' _ heq => absurd (heq ▸ he₂) (hno k e')
    · exact absurd (heq ▸ he₂) (hno k e')

theorem Reports.fewer {t : State} {k : Nat} (h : t.Reports k) (hf : s.Fewer t) (hep : t.bridge.epoch = s.bridge.epoch)
    (hrun : t.bridge.running = true → s.bridge.running = true) : s.Reports k := by
  obtain ⟨q, e', hq, hsub, hno⟩ := hf.queue
  rcases h with h | ⟨e, he⟩ | ⟨e, he⟩
  · obtain ⟨hr, l, hl, hle, hout⟩ := isOpen_eq_true.mp h
    exact .inl (isOpen_eq_true.mpr ⟨hrun hr, l, hf.logins ▸ hl, hle.trans hep, hout⟩)
  · rw [hq, List.mem_append] at he
    rcases he with he | he
    · exact .inr (.inl ⟨e, hsub.subset he⟩)
    · exact absurd he (hno k e)
  · exact .inr (.inr ⟨e, hep ▸ hf.waiting.subset he⟩)

/-- A step that only takes from what Bridge may still say. -/
theorem Attributed.fewer {t : State} (h : s.Attributed cfg) (hf : s.Fewer t) (hep : t.bridge.epoch = s.bridge.epoch)
    (hrun : t.bridge.running = true → s.bridge.running = true) (ha : t.accounts = s.accounts) (hnow : s.now ≤ t.now)
    (hidle : t.started = false → t.bridge.running = true → t.accounts.slot = none ∨ t.recovery.isSome = true) :
    t.Attributed cfg := by
  refine ⟨h.streams.fewer hf, ?_, fun k hk => ?_, hidle⟩
  · rw [ha, hf.logins]
    exact h.live.last
  · obtain ⟨hlast, op, hop, huser, hcheck, hmark⟩ := h.live.reports k (hk.fewer hf hep hrun)
    refine ⟨hf.logins ▸ hlast, op, ha ▸ hop, huser, hcheck, fun hm hr => ?_⟩
    obtain ⟨t₀, ht₀, hle⟩ := hmark hm (hrun hr)
    exact ⟨t₀, ht₀, hle.trans hnow⟩

/-- A new epoch leaves nothing to report. -/
theorem Streams.silent {t : State} (h : s.Streams) (hf : s.Fewer t) (hep : s.bridge.epoch < t.bridge.epoch)
    (hq : t.bridge.queue = []) (k : Nat) : ¬t.Reports k := by
  rintro (hk | ⟨e, he⟩ | ⟨e, he⟩)
  · obtain ⟨-, l, hl, hle, -⟩ := isOpen_eq_true.mp hk
    have := h.epochs l (hf.logins ▸ List.mem_of_getElem? hl)
    omega
  · simp [hq] at he
  · have := h.waited _ (hf.waiting.subset he)
    exact absurd this (by simpa using hep)

theorem Attributed.newEpoch {t : State} (h : s.Attributed cfg) (hf : s.Fewer t) (hep : s.bridge.epoch < t.bridge.epoch)
    (hq : t.bridge.queue = []) (hown : Owned t.accounts s.bridge.logins)
    (hidle : t.started = false → t.bridge.running = true → t.accounts.slot = none ∨ t.recovery.isSome = true) :
    t.Attributed cfg :=
  ⟨h.streams.fewer hf, hf.logins ▸ hown, fun k hk => absurd hk (h.streams.silent hf hep hq k), hidle⟩

end State

end MailExpert.ProtonWorker
