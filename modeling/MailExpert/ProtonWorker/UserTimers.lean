import MailExpert.ProtonWorker.UserSteps

/-!
# The users of Bridge outside the calls

The gate, the timers, the recoveries of Bridge, the restarts of the worker and the steps of Bridge itself keep `Covered` and
`Recorded` under `RemovalGuard`.
-/

namespace MailExpert.ProtonWorker

namespace State

variable {cfg : Config} {s s' t : State} {n : Native}

theorem Covered.settleHolder (h : s.Covered) (hwf : s.accounts.Wf) : ({ s with accounts := s.settleHolder } : State).Covered := by
  unfold State.settleHolder
  split
  next id op hslot hholder =>
    obtain ⟨id', hid, hop⟩ := Accounts.holder_eq_some.mp hholder
    obtain rfl : id = id' := Option.some.inj (hslot.symm.trans hid)
    have hstop : s.accounts.Serves s.bridge.users s.initial s.now
        (if op.state.active then s.accounts.stopAttempt s.now id .expired none else s.accounts) := by
      split
      next hact => exact .stopAttempt hwf h.checked rfl fun op' hop' => Option.some.inj (hop'.symm.trans hop) ▸ hact
      next => exact .refl _
    exact h.serves (hstop.trans (.mark (p := fun op => op.state.terminal)))
  next => exact h

/-- An operation under way is marked by the worker that starts from the journal; one that has ended keeps its row. -/
theorem Recorded.settleHolder (h : s.Recorded) : ({ s with accounts := s.settleHolder } : State).Recorded := by
  unfold State.settleHolder
  split
  next id op hslot hholder =>
    by_cases hact : op.state.active = true
    · have hfound := h.active op hholder hact
      exact ⟨fun _ _ => .inr (.inl hfound), fun _ _ _ => hfound⟩
    · obtain ⟨id', hid, hop⟩ := Accounts.holder_eq_some.mp hholder
      obtain rfl : id = id' := Option.some.inj (hslot.symm.trans hid)
      rw [if_neg hact]
      have hholder' : (s.accounts.modify id fun op => if op.state.terminal then { op with reconcile := true } else op).holder =
          some (if op.state.terminal then { op with reconcile := true } else op) := by
        refine Accounts.holder_eq_some.mpr ⟨id, hslot, ?_⟩
        rw [Accounts.lookup_modify, if_pos rfl, hop]
        rfl
      refine ⟨fun u hu => ?_, fun op' hop' hact' => ?_⟩
      · rcases h.users u hu with hk | hm | ⟨op₀, l, h₀, huser, hl, hout⟩ | ⟨op₀, h₀, huser, hcreated⟩
        · exact .inl hk
        · exact .inr (.inl hm)
        · obtain rfl : op = op₀ := Option.some.inj (hholder.symm.trans h₀)
          refine .inr (.inr (.inl ⟨_, l, hholder', ?_, hl, hout⟩))
          split <;> exact huser
        · obtain rfl : op = op₀ := Option.some.inj (hholder.symm.trans h₀)
          refine .inr (.inr (.inr ⟨_, hholder', ?_⟩))
          split <;> exact ⟨huser, hcreated⟩
      · obtain rfl := Option.some.inj (Eq.trans hholder'.symm hop')
        refine absurd ?_ hact
        split at hact'
        · exact hact'
        · exact hact'
  next => exact h

theorem Covered.drain {w : Waiter} (h : s.Covered) (hr : s.Recorded) (hwf : s.accounts.Wf) :
    (s.drain cfg n w).1.Covered ∧ (s.drain cfg n w).1.Recorded := by
  unfold State.drain
  split
  · exact ⟨h, hr⟩
  · split
    · have hset := h.settleHolder hwf
      have hrset := hr.settleHolder
      have hdown : ∀ started lost snapshot,
          ({ s with accounts := s.settleHolder, bridge := (s.bridge.shutdown n).1, started := started, nativeLost := lost,
                    snapshot := snapshot } : State).Covered ∧
          ({ s with accounts := s.settleHolder, bridge := (s.bridge.shutdown n).1, started := started, nativeLost := lost,
                    snapshot := snapshot } : State).Recorded := fun started lost snapshot =>
        ⟨hset.fewer (.of_eq rfl (Nat.le_succ _) rfl (List.nil_sublist _)) rfl rfl (fun _ hu => hu) (Nat.le_refl _),
          hrset.frame rfl rfl rfl rfl fun _ hu => hu⟩
      unfold State.stopForSnapshot
      dsimp only
      split
      · split
        · have h' := (hdown false s.nativeLost s.snapshot).1.both
          exact ⟨⟨h'.1.users, h'.1.checked, h'.1.clock, h'.1.done⟩, ⟨h'.2.users, h'.2.active⟩⟩
        · exact hdown s.started true none
      · have h' := hset.both
        exact ⟨⟨h'.1.users, h'.1.checked, h'.1.clock, h'.1.done⟩, ⟨h'.2.users, h'.2.active⟩⟩
    · split
      · exact ⟨⟨h.users, h.checked, h.clock, h.done⟩, ⟨hr.users, hr.active⟩⟩
      · exact ⟨⟨h.users, h.checked, h.clock, h.done⟩, ⟨hr.users, hr.active⟩⟩

theorem Covered.snapshotBegin {id : SnapshotId} (h : s.Covered) (hr : s.Recorded) (hwf : s.accounts.Wf) :
    (s.snapshotBegin cfg n id).1.Covered ∧ (s.snapshotBegin cfg n id).1.Recorded := by
  unfold State.snapshotBegin
  dsimp only
  split
  · split
    · exact ⟨⟨h.users, h.checked, h.clock, h.done⟩, ⟨hr.users, hr.active⟩⟩
    · split
      · exact ⟨h, hr⟩
      · exact ⟨⟨h.users, h.checked, h.clock, h.done⟩, ⟨hr.users, hr.active⟩⟩
  · exact Covered.drain ⟨h.users, h.checked, h.clock, h.done⟩ ⟨hr.users, hr.active⟩ hwf

theorem Covered.openGate (h : s.Covered) (hwf : s.accounts.Wf) (hre : s.alive = false → s.restartable = true) :
    (s.openGate cfg n).Covered ∧ (s.openGate cfg n).Recorded := by
  have hopen : State.Covered { s with snapshot := none, granted := none } := ⟨h.users, h.checked, h.clock, h.done⟩
  unfold State.openGate
  dsimp only
  split
  · have h₁ := hopen.ensureStarted (n := n) hwf fun halive _ => hre halive
    split
    next heq =>
      rw [heq] at h₁
      exact h₁.both
    next heq =>
      rw [heq] at h₁
      exact Covered.both ⟨h₁.users, h₁.checked, h₁.clock, h₁.done⟩
  · exact hopen.both

theorem Covered.snapshotEnd {id : SnapshotId} (h : s.Covered) (hr : s.Recorded) (hwf : s.accounts.Wf)
    (hre : s.alive = false → (s.snapshot.any (·.id = id)) = true → s.restartable = true) :
    (s.snapshotEnd cfg n id).1.Covered ∧ (s.snapshotEnd cfg n id).1.Recorded := by
  unfold State.snapshotEnd
  split
  · exact ⟨h, hr⟩
  next gate hgate =>
    split
    next hid => exact h.openGate hwf fun halive => hre halive (by simp [hgate, hid])
    · exact ⟨h, hr⟩

/-! ## The timers -/

/-- The marks take care of the users that nothing answers for. -/
def Ready (s : State) : Prop := s.accounts.Ready s.bridge.users s.initial

theorem Ready.ensureStarted (h : s.Ready) : (s.ensureStarted n).1.Ready := by
  obtain ⟨heq, -⟩ | ⟨heq, -⟩ | ⟨-, -, ⟨bridge, hbridge, heq⟩ | ⟨-, heq⟩⟩ := @ensureStarted_cases s n <;> rw [heq]
  · exact h
  · exact h
  · have hrestart : ∀ t : State, t.Ready → (t.afterRestart n).Ready := fun t ht => by
      obtain ⟨hrec, -⟩ := @Accounts.Reconciles.reconcileAll t.accounts t.now _ t.initial
        (fun id => t.list n (.orphans id)) fun _ _ hl => list_eq_some hl
      exact (restarted_removes (s := t)).ready (hrec.ready ht)
    rcases hbridge with rfl | ⟨-, -, rfl⟩
    · exact hrestart _ h
    · exact hrestart _ h
  · exact h

theorem Ready.openGate (h : s.Ready) : (s.openGate cfg n).Ready := by
  have hopen : State.Ready { s with snapshot := none, granted := none } := h
  unfold State.openGate
  dsimp only
  split
  · have h₁ := hopen.ensureStarted (n := n)
    split
    next heq =>
      rw [heq] at h₁
      exact h₁
    next heq =>
      rw [heq] at h₁
      exact h₁
  · exact hopen

/-- Opening the gate starts Bridge, or changes none of the accounts. -/
theorem openGate_started (hst : (s.openGate cfg n).started = false) : s.alive = false ∧ (s.openGate cfg n).accounts = s.accounts ∧
    (s.openGate cfg n).bridge.users = s.bridge.users ∧ (s.openGate cfg n).initial = s.initial ∧ (s.openGate cfg n).now = s.now := by
  unfold State.openGate at hst ⊢
  dsimp only at hst ⊢
  split at hst
  next hneed =>
    rw [if_pos hneed]
    split at hst
    next t heq =>
      have := started_of_ensureStarted heq
      have hst : t.started = false := hst
      simp [this] at hst
    next t e heq =>
      obtain ⟨heq', -⟩ | ⟨-, -, hsnap⟩ | ⟨halive, -, ⟨_, -, heq'⟩ | ⟨-, heq'⟩⟩ :=
        @ensureStarted_cases { s with snapshot := none, granted := none } n
      · rw [heq] at heq'
        cases (Prod.mk.inj heq').2
      · cases hsnap
      · rw [heq] at heq'
        cases (Prod.mk.inj heq').2
      · rw [heq, Prod.mk.injEq] at heq'
        obtain ⟨rfl, -⟩ := heq'
        exact ⟨halive, rfl, rfl, rfl, rfl⟩
  next hneed =>
    rw [if_neg hneed]
    have hst : s.started = false := hst
    exact ⟨by simp [alive, hst], rfl, rfl, rfl, rfl⟩

theorem restartableDue_congr (ha : t.accounts = s.accounts) (hu : t.bridge.users = s.bridge.users) (hi : t.initial = s.initial)
    (hnow : t.now = s.now) : t.restartableDue cfg = s.restartableDue cfg := by
  unfold restartableDue slotEnded orphans dueFor holderDue
  rw [ha, hu, hi, hnow]

/-- What the removals, and the mark of an operation that is due, leave to a restart of Bridge. -/
theorem tickRemovals_restartable (hdue : s.restartableDue cfg = true) :
    (s.tickRemovals cfg n).1.restartable = true := by
  have hrem : s.accounts.Removes s.bridge.users (s.accounts.removalTimers s.now (decide (s.timers.nextRecoveryAt ≤ s.now))
      fun u => s.list n (.timer u)).1 := .removalTimers fun _ _ hl => list_eq_some hl
  have hnone : ∀ v, s.accounts.pendingRemovals.lookup v = none →
      (s.accounts.removalTimers s.now (decide (s.timers.nextRecoveryAt ≤ s.now))
        fun u => s.list n (.timer u)).1.pendingRemovals.lookup v = none := fun v hv => Accounts.removalTimers_none hv
  unfold State.tickRemovals
  dsimp only
  generalize (s.accounts.removalTimers s.now (decide (s.timers.nextRecoveryAt ≤ s.now)) fun u => s.list n (.timer u)).1 = a at hrem hnone ⊢
  have hholder : a.holder = s.accounts.holder := by rw [Accounts.holder, Accounts.holder, hrem.operations, hrem.slot]
  have hpending : a.reconcilePending = s.accounts.reconcilePending := by
    rw [Accounts.reconcilePending, Accounts.reconcilePending, hrem.operations]
  simp only [restartableDue, Bool.or_eq_true, Bool.not_eq_true', Bool.or_eq_false_iff, List.all_eq_true,
    answered_eq_false_of_orphan, and_imp] at hdue
  -- A user that nothing answers for afterwards was no better off before.
  have hback : ∀ u ∈ s.bridge.users, a.answered s.initial u = false → s.accounts.answered s.initial u = false := fun u hu hun => by
    by_contra hans
    rw [Bool.not_eq_false] at hans
    simp [hrem.answered hu hans] at hun
  refine restartable_eq_true.mpr ?_
  split
  next hd =>
    obtain ⟨op, hop, hterm, hend, huser⟩ := holderDue_eq_true.mp hd
    have hop : a.holder = some op := hop
    obtain ⟨id, hslot, hlookup⟩ := Accounts.holder_eq_some.mp hop
    have heq : State.markHolder { s with accounts := a } = { s with accounts := a.modify id fun op => { op with reconcile := true } } := by
      unfold State.markHolder
      dsimp only
      rw [hslot]
    rw [heq]
    intro _ u hu hun
    have hun' : a.answered s.initial u = false := by
      by_contra hans
      rw [Bool.not_eq_false] at hans
      refine Bool.eq_false_iff.mp hun (Accounts.answered_mono hans (fun hl => Accounts.answered_of_linked hl)
        (fun hp => Accounts.answered_of_pending hp) fun k op' hop' hc => ?_)
      refine @Accounts.answered_of_claims _ k (if k = id then { op' with reconcile := true } else op') _ _ ?_ ?_
      · rw [Accounts.lookup_modify]
        split
        next heq => rw [← heq, hop']; rfl
        next => exact hop'
      · split <;> exact hc
    have hsame : ∀ k op', (a.modify id fun op => { op with reconcile := true }).operations.lookup k = some op' →
        ∃ op, s.accounts.operations.lookup k = some op ∧ op'.userId = op.userId ∧ op'.state = op.state := fun k op' hop' => by
      obtain ⟨rfl, op₀, h₀, rfl⟩ | ⟨-, hop'⟩ := Accounts.lookup_modify_some.mp hop'
      · exact ⟨op₀, hrem.operations ▸ h₀, rfl, rfl⟩
      · exact ⟨op', hrem.operations ▸ hop', rfl, rfl⟩
    have hholder₀ : s.accounts.holder = some op := hholder ▸ hop
    have hended : s.slotEnded = true := by simp [slotEnded, hholder₀, hterm]
    have hor := (hdue.resolve_left fun h => by simp [hended] at h) u hu (hback u hu hun')
    rcases hor with hrec | hfor
    · obtain ⟨k, op', hop', hmark, hknown⟩ := Accounts.reconciles_eq_true.mp hrec
      refine Accounts.reconciles_eq_true.mpr ⟨k, if k = id then { op' with reconcile := true } else op', ?_, ?_, ?_⟩
      · show (a.modify id fun op => { op with reconcile := true }).operations.lookup k = _
        rw [Accounts.lookup_modify, hrem.operations]
        split
        next heq => rw [← heq, hop']; rfl
        next => exact hop'
      · split
        · rfl
        · exact hmark
      · refine Accounts.known_same hsame hrem.links ?_ hun hknown
        split <;> rfl
    · simp only [dueFor, Bool.and_eq_true, Option.any_eq_true, Bool.not_eq_true'] at hfor
      obtain ⟨-, k, hk, op', hop', hknown⟩ := hfor
      obtain rfl : id = k := Option.some.inj (hslot.symm.trans (hrem.slot.trans hk))
      obtain rfl : op = op' := Option.some.inj (hholder₀.symm.trans hop')
      refine Accounts.reconciles_eq_true.mpr ⟨id, { op with reconcile := true }, ?_, rfl,
        Accounts.known_same hsame hrem.links rfl hun hknown⟩
      show (a.modify id fun op => { op with reconcile := true }).operations.lookup id = _
      rw [Accounts.lookup_modify, if_pos rfl, hlookup]
      rfl
  next hd =>
    intro hor u hu hun
    have hor₀ : ¬(s.accounts.reconcilePending = false ∧ s.slotEnded = false) := fun hand => by
      obtain ⟨hm, he⟩ := hand
      rcases hor with h | h
      · have h : a.reconcilePending = true := h
        simp [hpending, hm] at h
      · have h : (a.holder.any fun op => op.state.terminal) = true := h
        rw [hholder] at h
        simp only [slotEnded] at he
        simp [he] at h
    rcases (hdue.resolve_left hor₀) u hu (hback u hu hun) with hrec | hfor
    · obtain ⟨k, op', hop', hmark, hknown⟩ := Accounts.reconciles_eq_true.mp hrec
      exact Accounts.reconciles_eq_true.mpr ⟨k, op', hrem.operations ▸ hop', hmark,
        Accounts.known_rows (.of_eq hrem.operations) hrem.links rfl hun hknown⟩
    · -- An operation that is due stays so while the removals are looked at.
      simp only [dueFor, Bool.and_eq_true] at hfor
      refine absurd ?_ hd
      obtain ⟨op, hop, hterm, hend, huser⟩ := holderDue_eq_true.mp hfor.1
      exact holderDue_eq_true.mpr ⟨op, hholder.trans hop, hterm, hend, fun v hv => hnone v (huser v hv)⟩

theorem Covered.tickRemovals (h : s.Covered) (hready : s.Ready) : (s.tickRemovals cfg n).1.Covered ∧
    ((s.tickRemovals cfg n).2 = false → (s.tickRemovals cfg n).1.Ready) := by
  have hrem : s.accounts.Removes s.bridge.users (s.accounts.removalTimers s.now (decide (s.timers.nextRecoveryAt ≤ s.now))
      fun u => s.list n (.timer u)).1 := .removalTimers fun _ _ hl => list_eq_some hl
  have h' := h.serves hrem.serves
  unfold State.tickRemovals
  dsimp only
  split
  next hdue =>
    refine ⟨?_, fun hrec => by simp [hdue] at hrec⟩
    unfold State.markHolder
    split
    · exact h'
    · exact h'.serves (.mark (p := fun _ => true))
  next hdue => exact ⟨h', fun _ => hrem.ready hready⟩

theorem Covered.tickBridge {recover : Bool} (h : s.Covered) (hwf : s.accounts.Wf)
    (hready : recover = false → s.Ready) (hre : s.started = false → s.restartable = true) :
    (s.tickBridge cfg n recover).1.Covered ∧ ((s.tickBridge cfg n recover).2 = false → (s.tickBridge cfg n recover).1.Ready) := by
  unfold State.tickBridge
  split
  · split
    · exact ⟨h, fun hrec => by cases hrec⟩
    · exact ⟨⟨h.users, h.checked, h.clock, h.done⟩, hready⟩
  · split
    next hstart =>
      simp only [Bool.and_eq_true, Bool.not_eq_true'] at hstart
      have h₁ := h.ensureStarted (n := n) hwf fun _ _ => hre hstart.1.1
      have hready₁ : recover = false → (s.ensureStarted n).1.Ready := fun hrec => (hready hrec).ensureStarted
      split
      next heq =>
        rw [heq] at h₁ hready₁
        exact ⟨h₁, hready₁⟩
      next heq =>
        rw [heq] at h₁ hready₁
        exact ⟨⟨h₁.users, h₁.checked, h₁.clock, h₁.done⟩, hready₁⟩
    · exact ⟨h, hready⟩

theorem Covered.tickReconcile {recover : Bool} (h : s.Covered) (hwf : s.accounts.Wf) (hready : recover = false → s.Ready) :
    (s.tickReconcile n recover).1.Covered := by
  unfold State.tickReconcile
  split
  next hcond =>
    simp only [Bool.and_eq_true, Bool.not_eq_true', decide_eq_true_eq] at hcond
    obtain ⟨⟨⟨hrec, -⟩, hpending⟩, -⟩ := hcond
    obtain ⟨timers, heq⟩ := @reconcileAll_eq s n
    have h' := h.reconcileAll (n := n) hwf (restartable_eq_true.mpr fun _ => hready hrec hpending)
    dsimp only
    rw [heq]
    exact ⟨h'.users, h'.checked, h'.clock, h'.done⟩
  next => exact h

/-- The checks end no attempt that waits for its commit, and begin none. -/
theorem tickChecks_fresh {now ttl : Nat} (h : s.accounts.Fresh now ttl) : (s.tickChecks cfg n).1.accounts.Fresh now ttl := by
  have hrows : ∀ {a b : Accounts}, a.Rows b → a.Fresh now ttl → b.Fresh now ttl := fun hrows ha id op' hop' hc hcom => by
    obtain ⟨op, hop, heq, -⟩ := hrows id op' hop'
    rw [heq] at hc hcom ⊢
    exact ha id op hop hc hcom
  have h₁ : (s.tickRemovals cfg n).1.accounts.Fresh now ttl := by
    have hrem : ∀ {a : Accounts}, a.operations = s.accounts.operations → a.Fresh now ttl := fun ha id op hop => h id op (ha ▸ hop)
    unfold State.tickRemovals
    dsimp only
    have ha := hrem (@Accounts.Removes.removalTimers _ s.now _ (decide (s.timers.nextRecoveryAt ≤ s.now))
      (fun u => s.list n (.timer u)) fun _ _ hl => list_eq_some hl).operations
    split
    · unfold State.markHolder
      split
      · exact ha
      · intro id op' hop' hc hcom
        obtain ⟨rfl, op, hop, rfl⟩ | ⟨-, hop⟩ := Accounts.lookup_modify_some.mp hop'
        · exact ha _ op hop hc hcom
        · exact ha id op' hop hc hcom
    · exact ha
  have h₂ : ∀ {recover : Bool} {t : State}, t.accounts.Fresh now ttl → (t.tickBridge cfg n recover).1.accounts.Fresh now ttl :=
    fun {recover t} ht => by
      have hstart := hrows (ensureStarted_rows (s := t) (n := n)) ht
      unfold State.tickBridge
      split
      · split
        · exact ht
        · exact ht
      · split
        · split
          next heq =>
            rw [heq] at hstart
            exact hstart
          next heq =>
            rw [heq] at hstart
            exact hstart
        · exact ht
  have h₃ : ∀ {recover : Bool} {t : State}, t.accounts.Fresh now ttl → (t.tickReconcile n recover).1.accounts.Fresh now ttl :=
    fun {recover t} ht => by
      unfold State.tickReconcile
      split
      · exact hrows Accounts.Rows.reconcileAll ht
      · exact ht
  exact h₃ (h₂ h₁)

theorem ensureStarted_clock : (s.ensureStarted n).1.now = s.now ∧ (s.ensureStarted n).1.recovering = s.recovering := by
  obtain ⟨heq, -⟩ | ⟨heq, -⟩ | ⟨-, -, ⟨bridge, -, heq⟩ | ⟨-, heq⟩⟩ := @ensureStarted_cases s n <;> rw [heq] <;> exact ⟨rfl, rfl⟩

theorem openGate_recovering : (s.openGate cfg n).recovering = s.recovering := by
  obtain heq | heq := @openGate_outer cfg s n
  · have := congrArg State.recovering heq
    exact this
  · have := congrArg State.recovering heq
    exact Eq.trans this ensureStarted_clock.2

theorem tickChecks_now : (s.tickChecks cfg n).1.now = s.now := by
  have hbridge : ∀ {t : State} {recover : Bool}, (t.tickBridge cfg n recover).1.now = t.now := fun {t recover} => by
    obtain heq | ⟨-, heq⟩ | ⟨-, timers, heq⟩ := @tickBridge_cases cfg t n recover <;> rw [heq]
    exact ensureStarted_clock.1
  have hremovals := congrArg State.now (@tickRemovals_outer cfg s n)
  have hreconcile := congrArg State.now (@tickReconcile_outer ((s.tickRemovals cfg n).1.tickBridge cfg n (s.tickRemovals cfg n).2).1 n
    ((s.tickRemovals cfg n).1.tickBridge cfg n (s.tickRemovals cfg n).2).2)
  exact Eq.trans hreconcile (hbridge.trans hremovals)

theorem Covered.tickOpen (h : s.Covered) (hwf : s.Wf) (hready : s.recovering = false → s.Ready)
    (hre : s.recovering = false → s.started = false → (s.tickExpire cfg).restartableDue cfg = true) :
    (s.tickOpen cfg n).Covered ∧ (s.tickOpen cfg n).Recorded := by
  have hexp : (s.tickExpire cfg).Covered := h.serves (.expire hwf.accounts h.checked)
  have hwf' : (s.tickExpire cfg).Wf := hwf.setAccounts hwf.accounts.expire
  have hchecked : ∀ t, (if (s.tickExpire cfg).recovering then (s.tickExpire cfg, false) else (s.tickExpire cfg).tickChecks cfg n).1 = t →
      t.Covered ∧ t.accounts.Fresh t.now cfg.ttlSeconds := fun t ht => by
    split at ht
    · exact ht ▸ ⟨hexp, Accounts.expire_fresh⟩
    next hrec =>
      have hrec : s.recovering = false := (Bool.not_eq_true _).mp hrec
      obtain ⟨h₁, hready₁⟩ := @Covered.tickRemovals cfg _ n hexp (Accounts.Ready.expire hwf.accounts (hready hrec))
      have hwf₁ : ((s.tickExpire cfg).tickRemovals cfg n).1.Wf := hwf'.tickRemovals
      obtain ⟨h₂, hready₂⟩ := @Covered.tickBridge cfg _ n _ h₁ hwf₁.accounts hready₁ fun hst =>
        tickRemovals_restartable (hre hrec ((started_of_outer (@tickRemovals_outer cfg (s.tickExpire cfg) n)).symm.trans hst))
      have hnow : ((s.tickExpire cfg).tickChecks cfg n).1.now = s.now := tickChecks_now
      subst ht
      refine ⟨h₂.tickReconcile hwf₁.tickBridge.accounts hready₂, ?_⟩
      rw [hnow]
      exact tickChecks_fresh Accounts.expire_fresh
  unfold State.tickOpen
  dsimp only
  generalize hq : (if (s.tickExpire cfg).recovering then (s.tickExpire cfg, false) else (s.tickExpire cfg).tickChecks cfg n) = q at hchecked
  obtain ⟨hcov, hfresh⟩ := hchecked q.1 rfl
  have h' := (hcov.serves (.prune hfresh fun id op t hop ht => (hcov.clock id op hop).2 t ht)).both
  exact ⟨⟨h'.1.users, h'.1.checked, h'.1.clock, h'.1.done⟩, ⟨h'.2.users, h'.2.active⟩⟩

theorem Covered.tick (h : s.Covered) (hr : s.Recorded) (hwf : s.Wf) (hg : RemovalGuard cfg s (.tick n)) :
    (s.tick cfg n).Covered ∧ (s.tick cfg n).Recorded := by
  obtain ⟨-, hg⟩ := hg
  have hg : (s.snapshot.all (·.expiresAt ≤ s.now)) = true →
    (s.alive = false → s.snapshot.isSome = true → s.restartable = true) ∧
    (s.recovering = false → (s.accounts.reconcilePending = true → s.orphans.all s.accounts.reconciles = true) ∧
      (s.alive = false → s.started = false ∨ s.snapshot.isSome = true → (s.tickExpire cfg).restartableDue cfg = true)) := hg
  have hready : (s.snapshot.all (·.expiresAt ≤ s.now)) = true → s.recovering = false → s.Ready := fun hdue hrec hm u hu hun => by
    have := List.all_eq_true.mp (((hg hdue).2 hrec).1 hm) u
    exact this (answered_eq_false_of_orphan.mpr ⟨hu, hun⟩)
  unfold State.tick State.tickGate
  cases hsnap : s.snapshot with
  | none =>
    have hdue : (s.snapshot.all (·.expiresAt ≤ s.now)) = true := by simp [hsnap]
    refine h.tickOpen hwf (hready hdue) fun hrec hst => ?_
    exact ((hg hdue).2 hrec).2 (by simp [alive, hst]) (.inl hst)
  | some gate =>
    dsimp only
    split
    · exact ⟨h, hr⟩
    next hexp =>
      have hdue : (s.snapshot.all (·.expiresAt ≤ s.now)) = true := by simpa [hsnap] using hexp
      have hsome : s.snapshot.isSome = true := by simp [hsnap]
      have hrec : (s.openGate cfg n).recovering = s.recovering := openGate_recovering
      have hopen := (@Covered.openGate cfg s n h hwf.accounts fun halive => (hg hdue).1 halive hsome).1
      refine hopen.tickOpen hwf.openGate (fun hr => (hready hdue (hrec ▸ hr)).openGate) fun hr hst => ?_
      obtain ⟨halive, ha, hu, hi, hnow⟩ := openGate_started hst
      have ha' : ((s.openGate cfg n).tickExpire cfg).accounts = (s.tickExpire cfg).accounts := by
        show (s.openGate cfg n).accounts.expire _ _ = s.accounts.expire _ _
        rw [ha, hnow]
      have heq : ((s.openGate cfg n).tickExpire cfg).restartableDue cfg = (s.tickExpire cfg).restartableDue cfg :=
        restartableDue_congr ha' hu hi hnow
      exact heq.trans (((hg hdue).2 (hrec ▸ hr)).2 halive (.inr hsome))

theorem Covered.recoverNative (h : s.Covered) (hr : s.Recorded) :
    (s.recoverNative cfg n).Covered ∧ (s.recoverNative cfg n).Recorded :=
  ⟨h.fewer (.of_eq rfl (Nat.le_succ _) rfl (List.nil_sublist _)) rfl rfl (fun _ hu => hu) (Nat.le_refl _),
    hr.frame rfl rfl rfl rfl fun _ hu => hu⟩

theorem Covered.recovered {ok : Bool} (h : s.Covered) (hwf : s.accounts.Wf) (hre : ok = true → s.restartable = true) :
    (s.recovered n ok).Covered ∧ (s.recovered n ok).Recorded := by
  have h' : State.Covered { s with recovering := false, recovery := none, started := ok, nativeLost := false } :=
    ⟨h.users, h.checked, h.clock, h.done⟩
  unfold State.recovered
  dsimp only
  split
  next hok => exact (h'.afterRestart hwf (hre hok)).both
  next =>
    split
    · exact h'.both
    next id _ =>
      have hend := h'.serves (a := s.accounts.modify id fun op => { op with endedAt := some s.now }) (.modify_claims fun op _ =>
        ⟨⟨rfl, rfl, .inr rfl, fun h => h, fun h => h⟩, fun h => h, fun h => h, fun _ hc => hc⟩)
      exact hend.both

theorem Covered.boot (h : s.Covered) (hr : s.Recorded) (hwf : s.accounts.Wf)
    (hre : s.alive = false → s.snapshot = none → s.restartable = true) : (s.boot n).Covered ∧ (s.boot n).Recorded := by
  unfold State.boot
  split
  · have h₁ := h.ensureStarted (n := n) hwf hre
    split
    next heq =>
      rw [heq] at h₁
      exact h₁.both
    next heq =>
      rw [heq] at h₁
      exact ⟨h₁, hr.notStarted heq⟩
  · exact ⟨h, hr⟩

/-- Where the journal has every user of Bridge, the worker that starts from it does not need the slot's operation. -/
theorem Recorded.all_found (h : s.Recorded) (hmiss : s.accounts.slot.isSome = true → s.missed = false) {u : UserId}
    (hu : u ∈ s.bridge.users) : s.found.answered s.initial u = true ∨ s.found.reconcilePending = true := by
  have hheld : ∀ op, s.accounts.holder = some op →
      s.found.answered s.initial u = true ∨ s.found.reconcilePending = true := fun op hop => by
    obtain ⟨id, hid, -⟩ := Accounts.holder_eq_some.mp hop
    have hmiss := hmiss (by simp [hid])
    rw [missed, Bool.and_eq_false_iff] at hmiss
    rcases hmiss with hm | hm
    · exact .inr (by simpa using hm)
    · refine .inl ?_
      by_contra hnot
      exact Bool.eq_false_iff.mp hm (List.any_eq_true.mpr ⟨u, hu, by simpa using hnot⟩)
  rcases h.users u hu with hk | hm | ⟨op, -, hop, -⟩ | ⟨op, hop, -⟩
  · exact .inl hk
  · exact .inr hm
  · exact hheld op hop
  · exact hheld op hop

theorem Recorded.restart {sent : List UserId} (h : s.Recorded) (hmiss : s.accounts.slot.isSome = true → s.missed = false) :
    (s.restart sent).Covered ∧ (s.restart sent).Recorded := by
  have hrow : ∀ id op, (s.restart sent).accounts.operations.lookup id = some op →
      op.createdAt = s.now ∧ op.endedAt = some s.now ∧ op.state.active = false := fun id op hop => by
    obtain ⟨op₀, -, rfl⟩ := Journal.lookup_load.mp hop
    unfold Operation.loaded
    split
    next => exact ⟨rfl, rfl, rfl⟩
    next hact => exact ⟨rfl, rfl, by simpa using hact⟩
  have hnone : (s.restart sent).accounts.holder = none := Accounts.holder_none rfl
  refine ⟨⟨fun u hu => ?_, fun id op hop hc => ?_, fun id op hop => ?_, fun op hop => ?_⟩, ⟨fun u hu => ?_, fun op hop => ?_⟩⟩
  · rcases h.all_found hmiss hu with hk | hm
    · exact .inl (Accounts.kept_of_answered (Accounts.answered_load_now.trans hk))
    · exact .inr (.inl (Accounts.reconcilePending_load_now.trans hm))
  · have := (hrow id op hop).2.2
    simp [hc, OpState.active] at this
  · obtain ⟨hat, hend, -⟩ := hrow id op hop
    refine ⟨Nat.le_of_eq hat, fun t ht => ?_⟩
    rw [hend] at ht
    cases ht
    exact Nat.le_of_eq hat
  · simp [hnone] at hop
  · exact (h.all_found hmiss hu).imp_right .inl
  · simp [hnone] at hop

/-! ## Steps of Bridge -/

theorem emit_users {b b' : Bridge} {k : Nat} {e : LoginEvent} {u : UserId} (h : b.emit k e = some b') (hu : u ∈ b'.users) :
    u ∈ b.users ∨ e = .finished u := by
  unfold Bridge.emit at h
  split at h
  · obtain ⟨users, husers, rfl⟩ := Option.map_eq_some_iff.mp h
    have hu : u ∈ users := hu
    cases e with
    | finished v =>
      dsimp only at husers
      split at husers
      · exact .inl (Option.some.inj husers ▸ hu)
      · rw [← Option.some.inj husers] at hu
        rcases List.mem_append.mp hu with hu | hu
        · exact .inl hu
        · exact .inr (List.mem_singleton.mp hu ▸ rfl)
    | alreadyLoggedIn v =>
      dsimp only at husers
      split at husers
      · exact .inl (Option.some.inj husers ▸ hu)
      · cases husers
    | needs2fa => exact .inl (Option.some.inj husers ▸ hu)
    | needsSecondPassword => exact .inl (Option.some.inj husers ▸ hu)
    | hv => exact .inl (Option.some.inj husers ▸ hu)
    | error code => exact .inl (Option.some.inj husers ▸ hu)
  · cases h

/-- An event of the login that the slot's operation waits for. -/
theorem Covered.emit {k : Nat} {e : LoginEvent} {b : Bridge} (h : s.Covered) (hr : s.Recorded) (ha : s.Attributed cfg)
    (hb : s.bridge.emit k e = some b) : ({ s with bridge := b } : State).Covered ∧ ({ s with bridge := b } : State).Recorded := by
  have husers : ∀ u ∈ b.users, u ∈ s.bridge.users ∨ e = .finished u := fun u hu => emit_users hb hu
  obtain ⟨hopen, users, rfl⟩ := emit_eq_some hb
  obtain ⟨hlast, op, hop, huser, -⟩ := ha.live.reports k (.inl hopen)
  obtain ⟨-, l, hl, -, hout⟩ := isOpen_eq_true.mp hopen
  have hl : s.bridge.logins.getLast? = some l := by
    rw [List.getLast?_eq_getElem?, ← hlast, Nat.add_sub_cancel]
    exact hl
  have hlast' : (s.bridge.logins.modify k fun l => { l with outcome := e.outcome? }).getLast? = some { l with outcome := e.outcome? } := by
    have hk : k = s.bridge.logins.length - 1 := by omega
    rw [List.getLast?_eq_getElem?, List.length_modify, List.getElem?_modify, ← List.getLast?_eq_getElem?, hl, hk]
    simp
  have hnot : ∀ u, ¬s.Signed u := fun u ⟨_, l', _, _, hl', hfin⟩ => by
    obtain rfl : l = l' := Option.some.inj (hl.symm.trans hl')
    simp [hout] at hfin
  have hunique : ∀ op', s.accounts.holder = some op' → op' = op := fun op' hop' => Option.some.inj (hop'.symm.trans hop)
  have hsigned : ∀ u, e = .finished u → State.Signed { s with bridge := { s.bridge with
      users := users
      logins := s.bridge.logins.modify k fun l => { l with outcome := e.outcome? }
      queue := if s.bridge.stream then s.bridge.queue ++ [Event.login k e] else s.bridge.queue } } u := fun u hu =>
    ⟨op, _, hop, huser, hlast', by rw [hu]; rfl⟩
  refine ⟨⟨fun u hu => ?_, h.checked, h.clock, fun op' hop' hsome => ?_⟩, ⟨fun u hu => ?_, hr.active⟩⟩
  · rcases husers u hu with hu | hu
    · rcases h.users u hu with hk | hm | hs
      · exact .inl hk
      · exact .inr (.inl hm)
      · exact absurd hs (hnot u)
    · exact .inr (.inr (hsigned u hu))
  · simp [hunique op' hop', huser] at hsome
  · rcases husers u hu with hu | hu
    · rcases hr.users u hu with hk | hm | hs | ⟨op', hop', hsome, -⟩
      · exact .inl hk
      · exact .inr (.inl hm)
      · exact absurd hs (hnot u)
      · simp [hunique op' hop', huser] at hsome
    · exact .inr (.inr (.inl (hsigned u hu)))

theorem Covered.handOver (h : s.Covered) (hr : s.Recorded) (ht : s.handOver = some t) : t.Covered ∧ t.Recorded := by
  unfold State.handOver at ht
  split at ht
  · cases ht
  next e rest hq =>
    split at ht
    · cases ht
    · obtain rfl := Option.some.inj ht
      refine ⟨h.frame rfl (fun k e' he => ?_) rfl rfl (fun _ hu => hu) (Nat.le_refl _), hr.frame rfl rfl rfl rfl fun _ hu => hu⟩
      rcases he with he | ⟨epoch, he⟩
      · exact .inl (hq ▸ List.mem_cons_of_mem _ he)
      · rcases List.mem_append.mp he with he | he
        · exact .inr ⟨epoch, he⟩
        · cases List.mem_singleton.mp he
          exact .inl (hq ▸ List.mem_cons_self)

/-- A step of Bridge that adds nothing of a login to what it says. -/
theorem Covered.said {b : Bridge} {q e : List Event} (h : s.Covered) (hr : s.Recorded) (hl : b.logins = s.bridge.logins)
    (hep : s.bridge.epoch ≤ b.epoch) (hq : b.queue = q ++ e) (hsub : q.Sublist s.bridge.queue)
    (he : ∀ k e', Event.login k e' ∉ e) (hu : ∀ u ∈ b.users, u ∈ s.bridge.users) :
    ({ s with bridge := b } : State).Covered ∧ ({ s with bridge := b } : State).Recorded :=
  ⟨h.fewer ⟨hl, hep, .refl _, q, e, hq, hsub, he⟩ rfl rfl hu (Nat.le_refl _), hr.frame hl rfl rfl rfl hu⟩

theorem Covered.report {e : Event} (h : s.Covered) (hr : s.Recorded) (he : State.reports e = true) :
    ({ s with bridge := { s.bridge with queue := s.bridge.queue ++ [e] } } : State).Covered ∧
      ({ s with bridge := { s.bridge with queue := s.bridge.queue ++ [e] } } : State).Recorded := by
  refine h.said hr rfl (Nat.le_refl _) rfl (.refl _) (fun k e' hmem => ?_) fun _ hu => hu
  cases List.mem_singleton.mp hmem
  cases he

theorem Covered.endStream {kept : Nat} {running : Bool} (h : s.Covered) (hr : s.Recorded) :
    (s.endStream kept running).Covered ∧ (s.endStream kept running).Recorded := by
  refine h.said hr rfl (Nat.le_refl _) rfl (List.take_sublist _ _) (fun k e' hmem => ?_) fun _ hu => hu
  cases List.mem_singleton.mp hmem

/-- Bridge removes a user that it was asked to remove. -/
theorem Covered.gone {u : UserId} {asked : List UserId} (h : s.Covered) (hr : s.Recorded) :
    ({ s with bridge := { s.bridge with users := s.bridge.users.erase u }, accounts := { s.accounts with asked := asked } } :
      State).Covered ∧
    ({ s with bridge := { s.bridge with users := s.bridge.users.erase u }, accounts := { s.accounts with asked := asked } } :
      State).Recorded := by
  have h' : ({ s with accounts := { s.accounts with asked := asked } } : State).Covered :=
    h.serves (.of_operations rfl rfl (fun _ _ hl => Accounts.answered_of_linked hl) fun _ _ hp => Accounts.answered_of_pending hp)
  have hr' : ({ s with accounts := { s.accounts with asked := asked } } : State).Recorded := ⟨hr.users, hr.active⟩
  exact h'.said hr' (q := s.bridge.queue) (e := []) rfl (Nat.le_refl _) (by simp) (.refl _) (by simp) fun _ hu => List.mem_of_mem_erase hu

end State

end MailExpert.ProtonWorker
