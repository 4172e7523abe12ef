import MailExpert.ProtonWorker.Slot

/-!
# A granted snapshot

From the moment a `snapshot_begin` returned normally its gate should guard a stopped Bridge and an unchanging journal. Four
steps break that, and `SnapshotGuard` leaves them out: a `snapshot_begin` that finds the gate of another still draining and
returns at once; a cancel of a sign-in that is not committed, which no gate refuses; the end of a login that waited for the
lock while Bridge was stopped; and the two places where the worker takes Bridge for stopped although its process runs (a
`tick` that forgets a process which lost its stream, a failed recovery recorded after another call started Bridge).
`granted_stopped` is about every run without them.
-/

namespace MailExpert.ProtonWorker

namespace State

variable {cfg : Config} {s s' : State} {n : Native}

/-- No operation is under way. -/
def Idle (s : State) : Prop := ∀ id op, s.accounts.operations.lookup id = some op → op.state.active = false

/-- A granted snapshot holds the gate, and what it was granted for stays as it was. -/
def SnapshotHolds (s : State) : Prop :=
  ∀ g, s.granted = some g → (∃ gate, s.snapshot = some gate ∧ gate.id = g.id) ∧
    s.bridge.running = false ∧ s.bridge.epoch = g.epoch ∧ s.sendLeases = [] ∧ s.Idle ∧ s.recovering = false ∧
      s.accounts.links = g.links ∧ s.journal = g.journal

/-- The gate that a `snapshot_begin` with this id is answered by at once is still draining. -/
def beginsUndrained (s : State) (id : SnapshotId) : Bool :=
  s.snapshot.any fun gate => (gate.id = id || decide (gate.expiresAt ≤ s.now)) && s.granted.isNone

/-- A waiting `snapshot_begin` gives up, and opens the gate of its id. -/
def givesUp (cfg : Config) (s : State) (w : Waiter) : Bool :=
  (s.snapshot.any fun gate => gate.id = w.id) && !(s.sendLeases.isEmpty && !s.loginActive cfg) && decide (w.deadline ≤ s.now)

def isUncommitted (s : State) (id : OpId) : Bool :=
  (s.accounts.operations.lookup id).any fun op => op.state = .connected && !op.committed

def signsIn : Event → Bool
  | .login _ (.finished _) | .login _ (.alreadyLoggedIn _) => true
  | _ => false

def forgets (s : State) : Bool :=
  s.started && !s.alive && !s.needsBridge && s.accounts.slot.isNone && s.bridge.running

/-- The next `tick` forgets a Bridge that runs. -/
def tickForgets (cfg : Config) (s : State) (n : Native) : Bool :=
  (s.tickGate cfg n).any fun t => !(t.tickExpire cfg).recovering && ((t.tickExpire cfg).tickRemovals cfg n).1.forgets

end State

open State in
def SnapshotGuard (cfg : Config) (s : State) : Label → Prop
  | .begin id _ => s.beginsUndrained id = false
  | .wake i _ => s.granted.isSome = true → (s.waiters[i]?.any fun w => s.givesUp cfg w) = false
  | .cancel id => s.granted.isSome = true → s.isUncommitted id = false
  | .deliver i _ =>
    s.granted.isSome = true → s.accounts.slot.isSome = true → (s.waiting[i]?.any fun w => signsIn w.2) = false
  | .tick n => s.tickForgets cfg n = false
  | .recovered _ => s.recovery = some false → s.bridge.running = false
  | _ => True

instance (cfg : Config) (s : State) (l : Label) : Decidable (SnapshotGuard cfg s l) :=
  match l with
  | .begin .. | .tick _ => inferInstanceAs (Decidable (_ = _))
  | .wake .. | .cancel _ | .deliver .. | .recovered _ => inferInstanceAs (Decidable (_ → _))
  | .start .. | .continueLogin .. | .commit .. | .credentials .. | .remove .. | .acquire _ | .release _ | .endSnapshot .. | .renew _
  | .recoverNative _ | .boot _ | .restart _ | .pass _ | .emit .. | .report _ | .loseStream _ | .die _ | .gone _ | .handOver => .isTrue trivial

namespace State

variable {cfg : Config} {s s' : State} {n : Native}

/-! ## A Bridge that is not started does not run -/

/-- Bridge runs only while it counts as started, or a recovery has just started it. -/
def Stopped (s : State) : Prop := s.started = false → s.recovery = none → s.bridge.running = false

theorem Stopped.outer {t : State} (h : s.Stopped) (houter : t.outer = s.outer) : t.Stopped := by
  unfold Stopped
  rw [started_of_outer houter, recovery_of_outer houter, running_of_outer houter]
  exact h

theorem Stopped.ensureStarted (h : s.Stopped) : (s.ensureStarted n).1.Stopped := by
  obtain ⟨heq, -⟩ | ⟨heq, -⟩ | ⟨-, -, ⟨bridge, -, heq⟩ | ⟨hl, heq⟩⟩ := @ensureStarted_cases s n <;> rw [heq]
  · exact h
  · exact h
  · exact fun hst => by cases hst
  · exact fun _ _ => hl

theorem Stopped.openGate (h : s.Stopped) : (s.openGate cfg n).Stopped := by
  have hopen : ({ s with snapshot := none, granted := none } : State).Stopped := h
  rcases @openGate_outer cfg s n with houter | houter
  · exact hopen.outer houter
  · exact hopen.ensureStarted.outer houter

theorem Stopped.tickOpen (h : s.Stopped) (hforgets : s.recovering = false →
    ((s.tickExpire cfg).tickRemovals cfg n).1.forgets = false) : (s.tickOpen cfg n).Stopped := by
  obtain ⟨recovering, t, houter, -, htick⟩ := @tickOpen_outer cfg s n
  refine Stopped.outer (s := { t with recovering := recovering }) ?_ houter
  show t.Stopped
  rcases htick with htick | ⟨hrec, recover, rfl⟩
  · exact h.outer htick
  · have hremovals : ((s.tickExpire cfg).tickRemovals cfg n).1.Stopped := Stopped.outer (s := s.tickExpire cfg) h tickRemovals_outer
    obtain heq | ⟨⟨hst, hdead, hneeds, hslot⟩, heq⟩ | ⟨-, timers, heq⟩ :=
      @tickBridge_cases cfg ((s.tickExpire cfg).tickRemovals cfg n).1 n recover <;> rw [heq]
    · exact hremovals
    · intro _ _
      simpa [forgets, hst, hdead, hneeds, hslot] using hforgets hrec
    · exact hremovals.ensureStarted

theorem Stopped.tick (h : s.Stopped) (hforgets : s.tickForgets cfg n = false) : (s.tick cfg n).Stopped := by
  obtain ⟨-, heq⟩ | ⟨t, hgate, ht, heq⟩ := @tick_cases cfg s n <;> rw [heq]
  · exact h
  · have hopen : t.recovering = false → ((t.tickExpire cfg).tickRemovals cfg n).1.forgets = false := fun hrec => by
      have hrec : (t.tickExpire cfg).recovering = false := hrec
      simpa [tickForgets, hgate, hrec] using hforgets
    rcases ht with ⟨rfl, -⟩ | rfl
    · exact h.tickOpen hopen
    · exact h.openGate.tickOpen hopen

theorem Stopped.drain {w : Waiter} (h : s.Stopped) : (s.drain cfg n w).1.Stopped := by
  unfold State.drain
  split
  · exact h
  · split
    · unfold State.stopForSnapshot
      dsimp only
      split
      next hst =>
        split
        next hstops => exact fun _ _ => by simpa [Bridge.shutdown, State.grant, State.persist] using fun _ => hstops
        next => exact fun hf => by simp [hst] at hf
      next => exact h
    · split
      · exact h
      · exact h

theorem Stopped.step {l : Label} (h : s.Stopped) (hguard : SnapshotGuard cfg s l)
    (hstep : ProtonWorker.step cfg s l = some s') : s'.Stopped := by
  cases l with
  | start id email n =>
    cases hstep
    rcases @startConnection_outer s n id email with houter | houter
    · exact h.outer houter
    · exact h.ensureStarted.outer houter
  | continueLogin id challenge n => cases hstep; exact h.outer continueConnection_outer
  | cancel id => cases hstep; exact h.outer cancelConnection_outer
  | commit id u g previous => cases hstep; exact h.outer commitConnection_outer
  | credentials u owner n =>
    cases hstep
    rcases @credentials_outer cfg s n u owner with houter | houter
    · exact h.outer houter
    · exact h.ensureStarted.outer houter
  | remove u g email n =>
    cases hstep
    rcases @removeUser_outer cfg s n u g email with houter | houter
    · exact h.outer houter
    · exact h.ensureStarted.outer houter
  | acquire lease =>
    cases hstep
    unfold State.acquireSendLease
    split
    · exact h
    · split
      · exact h
      · split <;> exact h
  | release lease =>
    cases hstep
    obtain ⟨cancelled, heq⟩ := @releaseSendLease_eq s lease
    rw [heq]
    exact h
  | begin id n =>
    cases hstep
    have hgate : ∀ gate, ({ s with snapshot := gate } : State).Stopped := fun _ => h
    unfold State.snapshotBegin
    dsimp only
    split
    · split
      · exact h
      · split <;> exact h
    · exact (hgate _).drain
  | wake i n =>
    obtain ⟨w, -, rfl⟩ := Option.map_eq_some_iff.mp hstep
    exact Stopped.drain (s := { s with waiters := s.waiters.eraseIdx i }) h
  | endSnapshot id n =>
    cases hstep
    unfold State.snapshotEnd
    split
    · exact h
    · split
      · exact h.openGate
      · exact h
  | renew id =>
    cases hstep
    unfold State.snapshotRenew
    split
    · exact h
    · split <;> exact h
  | tick n => cases hstep; exact h.tick hguard
  | recoverNative n =>
    simp only [ProtonWorker.step, Option.ite_none_right_eq_some] at hstep
    obtain ⟨-, hstep⟩ := hstep
    cases hstep
    exact fun _ hnone => by cases hnone
  | recovered n =>
    obtain ⟨ok, hok, rfl⟩ := Option.map_eq_some_iff.mp hstep
    unfold State.recovered
    dsimp only
    split
    next ht => exact fun hf => by simp [State.persist, State.afterRestart, State.reconcileAll, ht] at hf
    next ht =>
      have hrun := hguard (by simpa [ht] using hok)
      split <;> exact fun _ _ => hrun
  | boot n =>
    cases hstep
    rcases @boot_outer s n with houter | houter
    · exact h.outer houter
    · exact h.ensureStarted.outer houter
  | restart sent => cases hstep; exact fun _ _ => rfl
  | pass seconds => cases hstep; exact h
  | emit k e =>
    obtain ⟨bridge, hb, rfl⟩ := Option.map_eq_some_iff.mp hstep
    intro hst hrec
    have hrun : bridge.running = s.bridge.running := by
      unfold Bridge.emit at hb
      split at hb
      · obtain ⟨users, -, rfl⟩ := Option.map_eq_some_iff.mp hb
        rfl
      · cases hb
    exact hrun.trans (h hst hrec)
  | report e =>
    simp only [ProtonWorker.step, Option.ite_none_right_eq_some] at hstep
    obtain ⟨-, hstep⟩ := hstep
    cases hstep
    exact h
  | loseStream kept =>
    simp only [ProtonWorker.step, Option.ite_none_right_eq_some] at hstep
    obtain ⟨-, hstep⟩ := hstep
    cases hstep
    exact h
  | die kept =>
    simp only [ProtonWorker.step, Option.ite_none_right_eq_some] at hstep
    obtain ⟨-, hstep⟩ := hstep
    cases hstep
    split <;> exact fun _ _ => rfl
  | gone u =>
    simp only [ProtonWorker.step, Option.ite_none_right_eq_some] at hstep
    obtain ⟨-, hstep⟩ := hstep
    cases hstep
    exact h
  | handOver =>
    simp only [ProtonWorker.step, State.handOver] at hstep
    split at hstep
    · cases hstep
    · split at hstep
      · cases hstep
      · cases hstep
        exact h
  | deliver i n =>
    obtain ⟨w, -, rfl⟩ := Option.map_eq_some_iff.mp hstep
    exact h

theorem ensureStarted_granted : (s.ensureStarted n).1.granted = s.granted := by
  obtain ⟨heq, -⟩ | ⟨heq, -⟩ | ⟨-, -, ⟨bridge, -, heq⟩ | ⟨hl, heq⟩⟩ := @ensureStarted_cases s n
  all_goals rw [heq]
  rfl

theorem openGate_granted : (s.openGate cfg n).granted = none := by
  rcases @openGate_outer cfg s n with houter | houter
  · exact granted_of_outer houter
  · exact (granted_of_outer houter).trans ensureStarted_granted

theorem tickOpen_granted : (s.tickOpen cfg n).granted = s.granted := by
  obtain ⟨recovering, t, houter, -, htick⟩ := @tickOpen_outer cfg s n
  refine (granted_of_outer houter).trans ?_
  show t.granted = s.granted
  rcases htick with htick | ⟨hrec, recover, rfl⟩
  · exact granted_of_outer htick
  · have hremovals : ((s.tickExpire cfg).tickRemovals cfg n).1.granted = s.granted :=
      granted_of_outer (s := s.tickExpire cfg) tickRemovals_outer
    obtain heq | ⟨-, heq⟩ | ⟨-, timers, heq⟩ :=
      @tickBridge_cases cfg ((s.tickExpire cfg).tickRemovals cfg n).1 n recover <;> rw [heq]
    · exact hremovals
    · exact hremovals
    · exact ensureStarted_granted.trans hremovals

/-- Nothing is under way, and the journal is up to date. -/
structure Quiet (cfg : Config) (s : State) : Prop where
  started : s.started = false
  running : s.bridge.running = false
  leases : s.sendLeases = []
  recovering : s.recovering = false
  idle : s.Idle
  finalized : ∀ id op, s.accounts.operations.lookup id = some op → s.finalizing cfg op = false
  settled : ∀ op, s.accounts.holder = some op → op.reconcile = true
  saved : s.accounts.saved = s.journal

structure Guards (s : State) (g : Grant) : Prop where
  gate : ∃ gate, s.snapshot = some gate ∧ gate.id = g.id
  links : s.accounts.links = g.links
  journal : s.journal = g.journal
  epoch : s.bridge.epoch = g.epoch

def Granted (cfg : Config) (s : State) : Prop := ∀ g, s.granted = some g → s.Quiet cfg ∧ s.Guards g

theorem granted_of_none (h : s.granted = none) : s.Granted cfg := fun g hg => by
  rw [h] at hg
  cases hg

namespace Quiet

theorem persist (h : s.Quiet cfg) : s.persist = s := by
  unfold State.persist
  rw [h.saved]

theorem list (h : s.Quiet cfg) (l : Listing) : s.list n l = none := by simp [State.list, Bridge.listUsers, h.running]

theorem not_alive (h : s.Quiet cfg) : s.alive = false := by simp [alive, h.started]

end Quiet

theorem Quiet.freeSlot (h : s.Quiet cfg) : ({ s with accounts := { s.accounts with slot := none } } : State).Quiet cfg :=
  { h with settled := fun op hop => absurd hop (by simp [Accounts.holder]) }

/-- A login event behind the gate that is not the end of a login can but free the slot. -/
theorem Quiet.onLoginEvent {k : Nat} {e : LoginEvent} (h : s.Quiet cfg)
    (he : s.accounts.slot.isSome = true → signsIn (.login k e) = false) :
    s.onLoginEvent n e = s.accounts ∨ s.onLoginEvent n e = { s.accounts with slot := none } := by
  unfold State.onLoginEvent
  split
  next id op hslot hholder =>
    obtain ⟨id', hid, hop⟩ := Accounts.holder_eq_some.mp hholder
    have hact := h.idle id' op hop
    have he := he (by simp [hslot])
    split
    · exact .inl (by simp [hact])
    · exact .inl (by simp [hact])
    · exact .inl (by simp [hact])
    · unfold Accounts.onLoginError
      split
      · exact .inl (by simp [hact])
      · exact .inr (by simp [hact, Accounts.release, hslot])
    · cases he
    · cases he
  next => exact .inl rfl

/-- Bridge is stopped, and no operation waits to be checked. -/
theorem Quiet.onUserChanged {u : UserId} (h : s.Quiet cfg) :
    s.accounts.onUserChanged s.now u (s.list n (.changed u)) n.getUser = s.accounts := by
  unfold Accounts.onUserChanged
  rw [h.list]
  refine List.foldlRecOn (motive := fun b : Accounts => b = s.accounts) _ _ (by simp) fun b hb k _ => ?_
  subst hb
  split
  next op hop =>
    rw [if_neg]
    intro hc
    simp only [Bool.and_eq_true, decide_eq_true_eq] at hc
    have := h.idle k op hop
    rw [hc.1] at this
    cases this
  next => rfl

theorem Quiet.onEvent {e : Event} (h : s.Quiet cfg) (he : s.accounts.slot.isSome = true → signsIn e = false) :
    (s.onEvent n e).Quiet cfg ∧ (s.onEvent n e).journal = s.journal ∧ (s.onEvent n e).accounts.links = s.accounts.links := by
  have ha : s.eventAccounts n e = s.accounts ∨ s.eventAccounts n e = { s.accounts with slot := none } := by
    cases e with
    | login k e => exact h.onLoginEvent he
    | userChanged u => exact .inl h.onUserChanged
    | streamEnded => exact .inl rfl
    | noKeychain => exact .inl rfl
  have hquiet : ({ s with accounts := s.eventAccounts n e } : State).Quiet cfg := by
    rcases ha with heq | heq <;> rw [heq]
    · exact h
    · exact h.freeSlot
  have hlost : ({ s with accounts := s.eventAccounts n e, nativeLost := s.nativeLost || e == .streamEnded } : State).Quiet cfg :=
    { hquiet with }
  unfold State.onEvent
  rw [hlost.persist]
  refine ⟨hlost, rfl, ?_⟩
  show (s.eventAccounts n e).links = s.accounts.links
  rcases ha with heq | heq <;> rw [heq]

/-! ## Granting a snapshot -/

theorem stopAttempt_row {a : Accounts} {now : Nat} {id k : OpId} {state : OpState} {code : Option ErrorCode} {op : Operation}
    (h : (a.stopAttempt now id state code).operations.lookup k = some op) :
    ∃ op₀, a.operations.lookup k = some op₀ ∧ op.createdAt = op₀.createdAt ∧ op.committed = op₀.committed ∧
      (k = id → op.state = state) ∧ (k ≠ id → op.state = op₀.state) := by
  unfold Accounts.stopAttempt at h
  split at h
  next hnone =>
    refine ⟨op, h, rfl, rfl, fun hk => ?_, fun _ => rfl⟩
    rw [hk, hnone] at h
    cases h
  next =>
    have hend : ∀ {op' : Operation}, (a.endOp now id state code).operations.lookup k = some op' →
        ∃ op₀, a.operations.lookup k = some op₀ ∧ op'.createdAt = op₀.createdAt ∧ op'.committed = op₀.committed ∧
          (k = id → op'.state = state) ∧ (k ≠ id → op'.state = op₀.state) := fun h => by
      obtain ⟨rfl, op₀, h₀, rfl⟩ | ⟨hne, h₀⟩ := Accounts.lookup_modify_some.mp h
      · exact ⟨op₀, h₀, rfl, rfl, fun _ => rfl, fun hne => absurd rfl hne⟩
      · exact ⟨_, h₀, rfl, rfl, fun heq => absurd heq hne, fun _ => rfl⟩
    split at h
    · have h : ((a.endOp now id state code).dropAttemptUser now id).operations.lookup k = some op := by
        unfold Accounts.release at h
        split at h <;> exact h
      obtain ⟨op₁, h₁, heq⟩ := Accounts.lookup_dropAttemptUser h
      obtain ⟨op₀, h₀, hrow⟩ := hend h₁
      rw [heq]
      exact ⟨op₀, h₀, hrow⟩
    · exact hend h

/-- The operations once the slot's holder is settled. -/
theorem settleHolder_row {k : OpId} {op : Operation} (h : s.settleHolder.operations.lookup k = some op) :
    ∃ op₀, s.accounts.operations.lookup k = some op₀ ∧ op.createdAt = op₀.createdAt ∧ op.committed = op₀.committed ∧
      (op.state = op₀.state ∨ op.state = .expired) := by
  unfold State.settleHolder at h
  split at h
  next id op₁ hslot hholder =>
    dsimp only at h
    have hstop : ∀ {op' : Operation}, ((if op₁.state.active then s.accounts.stopAttempt s.now id .expired none
        else s.accounts : Accounts)).operations.lookup k = some op' → ∃ op₀, s.accounts.operations.lookup k = some op₀ ∧
          op'.createdAt = op₀.createdAt ∧ op'.committed = op₀.committed ∧ (op'.state = op₀.state ∨ op'.state = .expired) :=
      fun h => by
        split at h
        · obtain ⟨op₀, h₀, hcreated, hcom, hself, hother⟩ := stopAttempt_row h
          refine ⟨op₀, h₀, hcreated, hcom, ?_⟩
          by_cases hk : k = id
          · exact .inr (hself hk)
          · exact .inl (hother hk)
        · exact ⟨_, h, rfl, rfl, .inl rfl⟩
    obtain ⟨rfl, op₀, h₀, rfl⟩ | ⟨-, h₀⟩ := Accounts.lookup_modify_some.mp h
    · have := hstop h₀
      split
      · exact this
      · exact this
    · exact hstop h₀
  next => exact ⟨op, h, rfl, rfl, .inl rfl⟩

/-- The holder is marked, unless it gave the slot up. -/
theorem settleHolder_settled {op : Operation} (hholder : s.settleHolder.holder = some op) : op.reconcile = true := by
  unfold State.settleHolder at hholder
  split at hholder
  next id op₁ hslot hholder₁ =>
    obtain ⟨id', hid, hop₁⟩ := Accounts.holder_eq_some.mp hholder₁
    obtain rfl : id = id' := Option.some.inj (hslot.symm.trans hid)
    obtain ⟨c, hc, hop⟩ := Accounts.holder_eq_some.mp hholder
    dsimp only at hop hc
    have hslot' : c = id := by
      have hc : ((if op₁.state.active then s.accounts.stopAttempt s.now id .expired none else s.accounts : Accounts)).slot =
        some c := hc
      split at hc
      · exact Option.some.inj ((Accounts.stopAttempt_slot hc).symm.trans hslot)
      · exact Option.some.inj (hc.symm.trans hslot)
    obtain ⟨-, op₀, h₀, rfl⟩ | ⟨hne, -⟩ := Accounts.lookup_modify_some.mp hop
    · have hterm : op₀.state.terminal = true := by
        split at h₀
        · obtain ⟨-, -, -, -, hself, -⟩ := stopAttempt_row h₀
          rw [hself rfl]
          rfl
        next hact =>
          obtain rfl : op₀ = op₁ := Option.some.inj (h₀.symm.trans hop₁)
          exact OpState.terminal_of_not_active (by simpa using hact)
      rw [if_pos hterm]
    · exact absurd hslot' hne
  next hnone =>
    obtain ⟨c, hc, -⟩ := Accounts.holder_eq_some.mp hholder
    exact absurd hholder (hnone c op hc)

/-- Behind a granted gate the holder is settled already. -/
theorem Quiet.settleHolder (h : s.Quiet cfg) : s.settleHolder = s.accounts := by
  unfold State.settleHolder
  split
  next id op hslot hholder =>
    obtain ⟨id', hid, hop⟩ := Accounts.holder_eq_some.mp hholder
    obtain rfl : id = id' := Option.some.inj (hslot.symm.trans hid)
    rw [if_neg (by simp [h.idle id op hop])]
    refine Accounts.modify_eq_self fun op' hop' => ?_
    obtain rfl : op' = op := Option.some.inj (hop'.symm.trans hop)
    have hrec := h.settled op' hholder
    split
    · cases op'
      cases hrec
      rfl
    · rfl
  next => rfl

theorem settleHolder_idle (h : s.accounts.Wf) {id : OpId} {op : Operation} (hop : s.settleHolder.operations.lookup id = some op) :
    op.state.active = false := by
  have hwf := Wf.settleHolder h
  by_contra hact
  have hact : op.state.active = true := by simpa using hact
  have hslot := hwf.active hop hact
  have hrec := @settleHolder_settled s op (by simp [Accounts.holder, hslot, hop])
  simp [OpState.not_active (hwf.marked hop hrec).1] at hact

theorem settleHolder_links : s.settleHolder.links = s.accounts.links := by
  have hstop : ∀ {id : OpId} {state : OpState} {code : Option ErrorCode},
      (s.accounts.stopAttempt s.now id state code).links = s.accounts.links := fun {id state code} => by
    have hdrop : ∀ {a : Accounts}, (a.dropAttemptUser s.now id).links = a.links := fun {a} => by
      unfold Accounts.dropAttemptUser
      split
      · rfl
      · split
        · split
          · rfl
          · split <;> rfl
        · rfl
    unfold Accounts.stopAttempt
    split
    · rfl
    · split
      · unfold Accounts.release
        split <;> exact hdrop
      · rfl
  unfold State.settleHolder
  split
  · dsimp only
    split
    · exact hstop
    · rfl
  · rfl

def Drained (cfg : Config) (s : State) : Prop := s.sendLeases = [] ∧ s.loginActive cfg = false

theorem Drained.quiet {t : State} (hwf : s.Wf) (hd : s.Drained cfg) (ha : t.accounts = s.settleHolder)
    (hj : t.journal = s.settleHolder.saved) (hst : t.started = false) (hrun : t.bridge.running = false)
    (hleases : t.sendLeases = s.sendLeases) (hrec : t.recovering = s.recovering) (hnow : t.now = s.now) : t.Quiet cfg := by
  have hactive := hd.2
  simp only [loginActive, Bool.or_eq_false_iff] at hactive
  refine ⟨hst, hrun, hleases.trans hd.1, hrec.trans hactive.1.1.2, fun id op hop => ?_, fun id op hop => ?_, fun op hop => ?_,
    by rw [hj, ha]⟩
  · rw [ha] at hop
    exact settleHolder_idle hwf.accounts hop
  · rw [ha] at hop
    obtain ⟨op₀, h₀, hcreated, hcom, hstate⟩ := settleHolder_row hop
    have hfin : s.finalizing cfg op₀ = false := by
      by_contra hfin
      exact Bool.eq_false_iff.mp hactive.1.2 (List.any_eq_true.mpr ⟨_, Table.mem_entries.mpr h₀, by simpa using hfin⟩)
    rcases hstate with hstate | hstate
    · simpa [finalizing, hcreated, hcom, hstate, hnow] using hfin
    · simp [finalizing, hstate]
  · rw [ha] at hop
    exact settleHolder_settled hop

theorem granted_grant {id : SnapshotId} {gate : Gate} (hq : s.Quiet cfg) (hgate : s.snapshot = some gate) (hid : gate.id = id)
    (hold : ∀ g, s.granted = some g → g.id = id → s.Guards g) : (s.grant id).Granted cfg := by
  have hquiet : (s.grant id).Quiet cfg := { hq with }
  intro g hg
  refine ⟨hquiet, ?_⟩
  have hg : (s.granted.filter fun g => g.id = id).or (some ⟨id, s.accounts.links, s.journal, s.bridge.epoch⟩) = some g := hg
  cases hf : s.granted.filter fun g => decide (g.id = id) with
  | none =>
    rw [hf] at hg
    cases hg
    exact ⟨⟨gate, hgate, hid⟩, rfl, rfl, rfl⟩
  | some g' =>
    rw [hf] at hg
    cases hg
    obtain ⟨hsome, hid'⟩ := Option.filter_eq_some_iff.mp hf
    have := hold g hsome (by simpa using hid')
    exact ⟨this.gate, this.links, this.journal, this.epoch⟩

/-- A `snapshot_begin` that looks whether everything drained. -/
theorem Granted.drain {w : Waiter} (h : s.Granted cfg) (hwf : s.Wf) (hst : s.Stopped)
    (hgives : s.granted.isSome = true → s.givesUp cfg w = false) : (s.drain cfg n w).1.Granted cfg := by
  unfold State.drain
  split
  · exact h
  next hgate =>
    obtain ⟨gate, hgate, hid⟩ : ∃ gate, s.snapshot = some gate ∧ gate.id = w.id := by
      cases hs : s.snapshot with
      | none => simp [hs] at hgate
      | some gate => exact ⟨gate, rfl, by simpa [hs] using hgate⟩
    split
    next hdrained =>
      simp only [Bool.and_eq_true, List.isEmpty_iff, Bool.not_eq_true'] at hdrained
      have hd : s.Drained cfg := hdrained
      have hrec : s.recovery = none := by
        have hactive := hd.2
        simp only [loginActive, Bool.or_eq_false_iff] at hactive
        cases hr : s.recovery with
        | none => rfl
        | some ok => exact absurd (hwf.recovery (by simp [hr])) (by simp [hactive.1.1.2])
      unfold State.stopForSnapshot
      dsimp only
      split
      next hstarted =>
        have hnone : s.granted = none := by
          cases hg : s.granted with
          | none => rfl
          | some g => exact absurd (h g hg).1.started (by simpa using hstarted)
        split
        next hstops =>
          refine @granted_grant _ _ _ gate (Drained.quiet hwf hd rfl rfl rfl ?_ rfl rfl rfl) hgate hid fun g hg => ?_
          · have hstops : n.stops = true := hstops
            simp [Bridge.shutdown, State.persist, hstops]
          · have hg : s.granted = some g := hg
            rw [hnone] at hg
            cases hg
        next => exact granted_of_none hnone
      next hstarted =>
        have hstarted : s.started = false := by simpa using hstarted
        refine @granted_grant _ _ _ gate (Drained.quiet hwf hd rfl rfl hstarted (hst hstarted hrec) rfl rfl rfl) hgate hid
          fun g hg _ => ?_
        obtain ⟨hquiet, hguards⟩ := h g hg
        refine ⟨hguards.gate, settleHolder_links.trans hguards.links, ?_, hguards.epoch⟩
        show s.settleHolder.saved = g.journal
        rw [hquiet.settleHolder, hquiet.saved, hguards.journal]
    next hdrained =>
      split
      next hdead =>
        have hnone : s.granted = none := by
          cases hg : s.granted with
          | none => rfl
          | some g =>
            have := hgives (by simp [hg])
            simp [givesUp, hgate, hid, hdead, hdrained] at this
        exact granted_of_none hnone
      next => exact fun g hg => ⟨{ (h g hg).1 with }, { (h g hg).2 with }⟩

/-! ## One step -/

theorem Granted.congr {t : State} (h : s.Granted cfg) (hgranted : t.granted = s.granted)
    (ht : ∀ g, s.granted = some g → s.Quiet cfg → s.Guards g → t.Quiet cfg ∧ t.Guards g) : t.Granted cfg := fun g hg => by
  rw [hgranted] at hg
  exact ht g hg (h g hg).1 (h g hg).2

/-- A granted gate refuses whatever is not a sign-in to be finalized, and none is left. -/
theorem Quiet.not_admits {g : Grant} {op? : Option Operation} (h : s.Quiet cfg) (hg : s.Guards g)
    (hop : ∀ op, op? = some op → ∃ id, s.accounts.operations.lookup id = some op) : s.admits cfg op? = false := by
  obtain ⟨gate, hgate, -⟩ := hg.gate
  cases op? with
  | none => simp [admits, hgate]
  | some op =>
    obtain ⟨id, hid⟩ := hop op rfl
    simp [admits, hgate, h.finalized id op hid]

theorem Quiet.ensureStarted {g : Grant} (h : s.Quiet cfg) (hg : s.Guards g) :
    s.ensureStarted n = (s, .error .maintenanceBusy) := by
  obtain ⟨gate, hgate, -⟩ := hg.gate
  simp [State.ensureStarted, h.not_alive, hgate]

theorem Granted.step {l : Label} (h : s.Granted cfg) (hwf : s.Wf) (hst : s.Stopped) (hguard : SnapshotGuard cfg s l)
    (hstep : ProtonWorker.step cfg s l = some s') : s'.Granted cfg := by
  have hframe : ∀ {t : State}, t.granted = s.granted → (∀ g, s.granted = some g → s.Quiet cfg → s.Guards g → t = s) →
      t.Granted cfg := fun hgranted ht => h.congr hgranted fun g hg hq hgu => by
    rw [ht g hg hq hgu]
    exact ⟨hq, hgu⟩
  cases l with
  | start id email n =>
    cases hstep
    refine hframe ?_ fun g hg hq hgu => ?_
    · rcases @startConnection_outer s n id email with houter | houter
      · exact granted_of_outer houter
      · exact (granted_of_outer houter).trans ensureStarted_granted
    · obtain ⟨gate, hgate, -⟩ := hgu.gate
      unfold State.startConnection
      split
      · rfl
      · rw [if_pos (by simp [busy, hgate])]
  | continueLogin id challenge n =>
    cases hstep
    refine hframe (granted_of_outer continueConnection_outer) fun g hg hq hgu => ?_
    unfold State.continueConnection
    split
    · rfl
    next op hop =>
      rw [if_neg]
      intro hch
      simp only [Bool.and_eq_true, Bool.or_eq_true, decide_eq_true_eq] at hch
      have hact := hq.idle id op hop
      rcases hch.1.1 with hc | hc <;> rw [hch.1.2, hc] at hact <;> cases hact
  | cancel id =>
    cases hstep
    refine hframe (granted_of_outer cancelConnection_outer) fun g hg hq hgu => ?_
    have hunc : s.isUncommitted id = false := hguard (by simp [hg])
    unfold State.cancelConnection
    split
    · rfl
    next op hop =>
      have hunc : (decide (op.state = .connected) && !op.committed) = false := by simpa [isUncommitted, hop] using hunc
      simp only [hunc, hq.idle id op hop]
      exact hq.persist
  | commit id u g' previous =>
    cases hstep
    refine hframe (granted_of_outer commitConnection_outer) fun g hg hq hgu => ?_
    unfold State.commitConnection
    split
    · rfl
    next op hop =>
      rw [hq.not_admits hgu fun op' hop' => ⟨id, by cases hop'; exact hop⟩]
      rfl
  | credentials u owner n =>
    cases hstep
    refine hframe ?_ fun g hg hq hgu => ?_
    · rcases @credentials_outer cfg s n u owner with houter | houter
      · exact granted_of_outer houter
      · exact (granted_of_outer houter).trans ensureStarted_granted
    · unfold State.credentials
      split
      · rfl
      · rw [hq.ensureStarted hgu]
  | remove u g' email n =>
    cases hstep
    refine hframe ?_ fun g hg hq hgu => ?_
    · rcases @removeUser_outer cfg s n u g' email with houter | houter
      · exact granted_of_outer houter
      · exact (granted_of_outer houter).trans ensureStarted_granted
    · unfold State.removeUser
      rw [hq.not_admits hgu fun op hop => by cases hop]
      rfl
  | acquire lease =>
    cases hstep
    unfold State.acquireSendLease
    split
    · exact h.congr rfl fun g hg hq hgu => ⟨{ hq with }, { hgu with }⟩
    · split
      · exact h
      · split
        · exact h
        next hadmits =>
          refine h.congr rfl fun g hg hq hgu => absurd ?_ hadmits
          rw [hq.not_admits hgu fun op hop => by cases hop]
          rfl
  | release lease =>
    cases hstep
    obtain ⟨cancelled, heq⟩ := @releaseSendLease_eq s lease
    rw [heq]
    refine h.congr rfl fun g hg hq hgu => ⟨{ hq with leases := ?_ }, { hgu with }⟩
    show s.sendLeases.filter _ = []
    rw [hq.leases, List.filter_nil]
  | begin id n =>
    cases hstep
    unfold State.snapshotBegin
    dsimp only
    split
    next gate hgate =>
      have hsome : gate.id = id ∨ gate.expiresAt ≤ s.now → ∃ g, s.granted = some g := fun hor => by
        have hg : s.beginsUndrained id = false := hguard
        cases hs : s.granted with
        | some g => exact ⟨g, rfl⟩
        | none => rcases hor with hor | hor <;> simp [beginsUndrained, hgate, hs, hor] at hg
      split
      next hid =>
        obtain ⟨g, hg⟩ := hsome (.inl hid)
        exact granted_grant (h g hg).1 hgate hid fun g' hg' _ => (h g' hg').2
      next =>
        split
        · exact h
        next hexp =>
          obtain ⟨g, hg⟩ := hsome (.inr (by omega))
          refine @granted_grant _ _ _ { id := id, expiresAt := s.now + cfg.snapshotTtlSeconds } { (h g hg).1 with } rfl rfl
            fun g' hg' hid' => ?_
          have hgu := (h g' hg').2
          exact ⟨⟨_, rfl, hid'.symm⟩, hgu.links, hgu.journal, hgu.epoch⟩
    next hnone =>
      have hgate : ∀ gate, ({ s with snapshot := some gate } : State).granted = none := fun gate => by
        show s.granted = none
        cases hg : s.granted with
        | none => rfl
        | some g =>
          obtain ⟨gate, hgate, -⟩ := (h g hg).2.gate
          simp [hnone] at hgate
      exact (granted_of_none (hgate _)).drain ⟨hwf.accounts, hwf.journal, hwf.recovery⟩ hst fun hg =>
        absurd (Option.isSome_iff_exists.mp hg) (by rw [hgate]; simp)
  | wake i n =>
    obtain ⟨w, hw, rfl⟩ := Option.map_eq_some_iff.mp hstep
    have herase : ({ s with waiters := s.waiters.eraseIdx i } : State).Granted cfg :=
      h.congr rfl fun g hg hq hgu => ⟨{ hq with }, { hgu with }⟩
    refine herase.drain ⟨hwf.accounts, hwf.journal, hwf.recovery⟩ hst fun hg => ?_
    have hgives := hguard hg
    rw [hw] at hgives
    exact hgives
  | endSnapshot id n =>
    cases hstep
    unfold State.snapshotEnd
    split
    · exact h
    · split
      · exact granted_of_none openGate_granted
      · exact h
  | renew id =>
    cases hstep
    unfold State.snapshotRenew
    split
    · exact h
    next gate hgate =>
      split
      next hid =>
        refine h.congr rfl fun g hg hq hgu => ⟨{ hq with }, ⟨_, rfl, ?_⟩, hgu.links, hgu.journal, hgu.epoch⟩
        obtain ⟨gate', hgate', hid'⟩ := hgu.gate
        obtain rfl : gate = gate' := Option.some.inj (hgate.symm.trans hgate')
        exact hid'
      next => exact h
  | tick n =>
    cases hstep
    obtain ⟨-, heq⟩ | ⟨t, -, ⟨rfl, hnone⟩ | rfl, heq⟩ := @tick_cases cfg s n <;> rw [heq]
    · exact h
    · refine granted_of_none (tickOpen_granted.trans ?_)
      cases hg : t.granted with
      | none => rfl
      | some g =>
        obtain ⟨gate, hgate, -⟩ := (h g hg).2.gate
        simp [hnone] at hgate
    · exact granted_of_none (tickOpen_granted.trans openGate_granted)
  | recoverNative n =>
    simp only [ProtonWorker.step, Option.ite_none_right_eq_some, Bool.and_eq_true] at hstep
    obtain ⟨⟨hrec, -⟩, hstep⟩ := hstep
    cases hstep
    exact h.congr rfl fun g hg hq hgu => by simp [hq.recovering] at hrec
  | recovered n =>
    obtain ⟨ok, hok, rfl⟩ := Option.map_eq_some_iff.mp hstep
    have hnone : s.granted = none := by
      cases hg : s.granted with
      | none => rfl
      | some g => exact absurd (hwf.recovery (by simp [hok])) (by simp [(h g hg).1.recovering])
    unfold State.recovered
    dsimp only
    split
    · exact granted_of_none hnone
    · split <;> exact granted_of_none hnone
  | boot n =>
    cases hstep
    refine hframe ?_ fun g hg hq hgu => ?_
    · rcases @boot_outer s n with houter | houter
      · exact granted_of_outer houter
      · exact (granted_of_outer houter).trans ensureStarted_granted
    · unfold State.boot
      split
      · rw [hq.ensureStarted hgu]
      · rfl
  | restart sent => cases hstep; exact granted_of_none rfl
  | pass seconds =>
    cases hstep
    refine h.congr rfl fun g hg hq hgu => ⟨{ hq with finalized := fun id op hop => ?_ }, { hgu with }⟩
    have := hq.finalized id op hop
    simp only [finalizing, Bool.and_eq_false_iff, decide_eq_false_iff_not] at this ⊢
    rcases this with this | this
    · exact .inl this
    · exact .inr (by omega)
  | emit k e =>
    obtain ⟨bridge, hb, rfl⟩ := Option.map_eq_some_iff.mp hstep
    refine h.congr rfl fun g hg hq hgu => ?_
    simp [Bridge.emit, Bridge.isOpen, hq.running] at hb
  | report e =>
    simp only [ProtonWorker.step, Option.ite_none_right_eq_some] at hstep
    obtain ⟨-, hstep⟩ := hstep
    cases hstep
    exact h.congr rfl fun g hg hq hgu => ⟨{ hq with }, { hgu with }⟩
  | loseStream kept =>
    simp only [ProtonWorker.step, Option.ite_none_right_eq_some] at hstep
    obtain ⟨-, hstep⟩ := hstep
    cases hstep
    exact h.congr rfl fun g hg hq hgu => ⟨{ hq with }, { hgu with }⟩
  | die kept =>
    simp only [ProtonWorker.step, Option.ite_none_right_eq_some] at hstep
    obtain ⟨hrun, hstep⟩ := hstep
    cases hstep
    refine h.congr (by split <;> rfl) fun g hg hq hgu => ?_
    simp [hq.running] at hrun
  | gone u =>
    simp only [ProtonWorker.step, Option.ite_none_right_eq_some, Bool.and_eq_true] at hstep
    obtain ⟨⟨hrun, -⟩, hstep⟩ := hstep
    cases hstep
    refine h.congr rfl fun g hg hq hgu => ?_
    simp [hq.running] at hrun
  | handOver =>
    simp only [ProtonWorker.step, State.handOver] at hstep
    split at hstep
    · cases hstep
    · split at hstep
      · cases hstep
      · cases hstep
        exact h.congr rfl fun g hg hq hgu => ⟨{ hq with }, { hgu with }⟩
  | deliver i n =>
    obtain ⟨w, hw, rfl⟩ := Option.map_eq_some_iff.mp hstep
    refine h.congr rfl fun g hg hq hgu => ?_
    have herase : ({ s with waiting := s.waiting.eraseIdx i } : State).Quiet cfg := { hq with }
    obtain ⟨hquiet, hjournal, hlinks⟩ := herase.onEvent (n := n) (e := w.2) fun hslot => by
      simpa [hw] using hguard (by simp [hg]) hslot
    exact ⟨hquiet, hgu.gate, hlinks.trans hgu.links, hjournal.trans hgu.journal, hgu.epoch⟩

end State

theorem snapshot_invariant (cfg : Config) :
    (system cfg).Invariant (SnapshotGuard cfg) fun s => s.Wf ∧ s.Stopped ∧ s.Granted cfg := by
  refine TransitionSystem.Invariant.strengthen (wf_invariant cfg) (fun s hs => ?_) fun s l s' hwf hs hguard hstep =>
    ⟨hs.1.step hguard hstep, hs.2.step hwf hs.1 hguard hstep⟩
  obtain ⟨-, -, -, -, -, -, -, -, -, hgranted, hrun, -⟩ := hs
  exact ⟨fun _ _ => hrun, State.granted_of_none hgranted⟩

/-- While a granted snapshot holds the gate Bridge is stopped, nothing is sent or signed in, and links and journal stay as
they were: in every run without the steps that `SnapshotGuard` leaves out. -/
theorem granted_stopped (cfg : Config) (s : State) (h : (system cfg).ReachesUnder (SnapshotGuard cfg) s) : s.SnapshotHolds := by
  obtain ⟨-, -, hgranted⟩ := (snapshot_invariant cfg).reachesUnder h
  intro g hg
  obtain ⟨hq, hgu⟩ := hgranted g hg
  exact ⟨hgu.gate, hq.running, hgu.epoch, hq.leases, hq.idle, hq.recovering, hgu.links, hgu.journal⟩

/-- A sign-in failed before the snapshot: Bridge ran, and is stopped for it. -/
theorem granted_stopped_after_login : ∃ s, (system {}).ReachesUnder (SnapshotGuard {}) s ∧ s.granted.isSome = true ∧ s.SnapshotHolds := by
  have htrace : ((system {}).exec (SnapshotGuard {}) (fresh []) [.start "op" "ada@proton.me" {}, .emit 0 (.error .badPassword),
      .handOver, .deliver 0 {}, .begin "snapshot" {}]).any (fun s => s.granted.isSome && s.bridge.epoch == 2) = true := by
    decide +kernel
  obtain ⟨s, hs, hp⟩ := TransitionSystem.reaches_of_exec fresh_init htrace
  rw [Bool.and_eq_true] at hp
  exact ⟨s, hs, hp.1, granted_stopped {} s hs⟩

/-- A repeated `snapshot_begin` returns while the first one still waits for a send. -/
theorem granted_while_sending : ∃ s, (system {}).Reachable s ∧ ¬s.SnapshotHolds := by
  have htrace : ((system {}).exec TransitionSystem.anyStep (fresh []) [.acquire "send", .begin "snapshot" {},
      .begin "snapshot" {}]).any (fun s => s.granted.isSome && !s.sendLeases.isEmpty) = true := by decide +kernel
  obtain ⟨s, hs, hp⟩ := TransitionSystem.reaches_of_exec fresh_init htrace
  rw [Bool.and_eq_true] at hp
  refine ⟨s, hs, fun h => ?_⟩
  obtain ⟨g, hg⟩ := Option.isSome_iff_exists.mp hp.1
  obtain ⟨-, -, -, hleases, -⟩ := h g hg
  simp [hleases] at hp

end MailExpert.ProtonWorker
