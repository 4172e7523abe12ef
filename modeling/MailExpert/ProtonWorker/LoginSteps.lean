import MailExpert.ProtonWorker.Attribution

/-!
# The steps of a login

Every method of the controller and every step of Bridge keeps `Attributed` under `AttributionGuard`.
-/

namespace MailExpert.ProtonWorker

namespace State

variable {cfg : Config} {s s' t : State} {n : Native}

theorem Fewer.of_eq (hl : t.bridge.logins = s.bridge.logins) (hep : s.bridge.epoch ≤ t.bridge.epoch) (hw : t.waiting = s.waiting)
    (hq : t.bridge.queue.Sublist s.bridge.queue) : s.Fewer t where
  logins := hl
  epoch := hep
  waiting := hw ▸ .refl _
  queue := ⟨t.bridge.queue, [], by simp, hq, by simp⟩

theorem started_of_ensureStarted (h : s.ensureStarted n = (t, .ok ())) : t.started = true := by
  obtain ⟨heq, halive⟩ | ⟨heq, -⟩ | ⟨-, -, ⟨bridge, -, heq⟩ | ⟨-, heq⟩⟩ := @ensureStarted_cases s n <;>
    rw [heq, Prod.mk.injEq] at h
  · rw [← h.1]
    simp only [alive, Bool.and_eq_true] at halive
    exact halive.1.1
  · cases h.2
  · obtain ⟨rfl, -⟩ := h
    rfl
  · cases h.2

theorem Attributed.launch (h : s.Attributed cfg) (ht : t.bridge = s.bridge.launch n) (hw : t.waiting = s.waiting)
    (hown : Owned t.accounts s.bridge.logins)
    (hidle : t.started = false → t.bridge.running = true → t.accounts.slot = none ∨ t.recovery.isSome = true) :
    t.Attributed cfg ∧ ∀ k, ¬t.Reports k := by
  have hf : s.Fewer t := .of_eq (by rw [ht]; rfl) (by rw [ht]; exact Nat.le_succ _) hw (by rw [ht]; exact List.nil_sublist _)
  have hep : s.bridge.epoch < t.bridge.epoch := by
    rw [ht]
    exact Nat.lt_succ_self _
  have hq : t.bridge.queue = [] := by
    rw [ht]
    rfl
  exact ⟨h.newEpoch hf hep hq hown hidle, h.streams.silent hf hep hq⟩

theorem Attributed.ensureStarted (h : s.Attributed cfg) (hwf : s.accounts.Wf)
    (hset : s.started = false → s.bridge.running = true → s.unsettled = false) : (s.ensureStarted n).1.Attributed cfg := by
  obtain ⟨heq, -⟩ | ⟨heq, -⟩ | ⟨-, -, ⟨bridge, hbridge, heq⟩ | ⟨hlaunch, heq⟩⟩ := @ensureStarted_cases s n <;> rw [heq]
  · exact h
  · exact h
  · rcases hbridge with rfl | ⟨hst, hrun, rfl⟩
    · obtain ⟨h', hsilent⟩ := h.launch (t := { s with bridge := s.bridge.launch n, started := true, nativeLost := false })
        rfl rfl h.live.last (fun hst => by cases hst)
      exact h'.afterRestart hwf (unsettled_of_silent hsilent)
    · refine Attributed.afterRestart ⟨{ h.streams with }, ?_⟩ hwf (hset hst hrun)
      exact ⟨h.live.last, h.live.reports, fun hst => by cases hst⟩
  · refine (h.launch (t := { s with bridge := s.bridge.launch n, started := false }) rfl rfl h.live.last fun _ hrun => ?_).1
    have hrun : n.launches = true := hrun
    simp [hlaunch] at hrun

/-- Starting Bridge outside of a recovery leaves nothing to report. -/
theorem Attributed.silent_of_started (h : s.Attributed cfg) (hst : s.started = false)
    (hrec : s.recovery = none) (hok : s.ensureStarted n = (t, .ok ())) (k : Nat) : ¬t.Reports k := by
  obtain ⟨heq, halive⟩ | ⟨heq, -⟩ | ⟨-, -, ⟨bridge, hbridge, heq⟩ | ⟨-, heq⟩⟩ := @ensureStarted_cases s n <;>
    rw [heq, Prod.mk.injEq] at hok
  · simp [alive, hst] at halive
  · cases hok.2
  · obtain ⟨rfl, -⟩ := hok
    rcases hbridge with rfl | ⟨-, hrun, rfl⟩
    · exact (h.launch (t := { s with bridge := s.bridge.launch n, started := true, nativeLost := false })
        rfl rfl h.live.last (fun hst => by cases hst)).2 k
    · have hslot : s.accounts.slot = none := by
        rcases h.live.idle hst hrun with hslot | hsome
        · exact hslot
        · simp [hrec] at hsome
      exact h.live.of_slot_none hslot k
  · cases hok.2

/-! ## Sign-ins -/

theorem Attributed.endOp {id : OpId} {state : OpState} {code : Option ErrorCode} (h : s.Attributed cfg)
    (hstate : state ≠ .checking) (hmark : ∀ op, s.accounts.operations.lookup id = some op → op.reconcile = false) :
    ({ s with accounts := s.accounts.endOp s.now id state code } : State).Attributed cfg :=
  h.keeps (.endOp hstate fun op _ hop => hmark op hop)

/-- A new login of the operation that takes the slot. -/
theorem Attributed.login {id : OpId} {op : Operation} (h : s.Attributed cfg) (hslot : s.accounts.slot = none)
    (hst : s.started = true) (huser : op.userId = none) (hcheck : op.state ≠ .checking) (hrec : op.reconcile = false) :
    ({ s with
      accounts := { s.accounts with operations := s.accounts.operations.insert id op, slot := some id }
      bridge := (s.bridge.login id n).1 } : State).Attributed cfg := by
  have hnone := h.live.of_slot_none hslot
  have hholder : ({ s.accounts with operations := s.accounts.operations.insert id op, slot := some id } : Accounts).holder =
      some op := by
    rw [Accounts.holder_of_slot (c := id) rfl]
    simp
  constructor
  · constructor
    · intro l hl
      rcases List.mem_append.mp hl with hl | hl
      · exact h.streams.epochs l hl
      · obtain rfl := List.mem_singleton.mp hl
        exact Nat.le_refl _
    · exact h.streams.waited
    · exact h.streams.ordered
    · intro k e he
      have := h.streams.causes k e he
      simp only [Bridge.login, List.length_append, List.length_cons, List.length_nil]
      omega
    · intro k e o he ho
      obtain ⟨l, hl, hout⟩ := h.streams.ended k e o he ho
      exact ⟨l, by rw [Bridge.login, List.getElem?_append_left (h.streams.causes k e he), hl], hout⟩
    · exact h.streams.order
  · refine ⟨fun c hc => ?_, fun k hk => ?_, fun hst' => ?_⟩
    · obtain rfl : id = c := Option.some.inj hc
      refine ⟨_, List.getLast?_concat, rfl, fun op' hop' hsome => ?_⟩
      obtain rfl : op = op' := Option.some.inj (hholder.symm.trans hop')
      simp [huser] at hsome
    · refine ⟨?_, op, hholder, huser, hcheck, fun hm => by simp [hrec] at hm⟩
      rcases hk with hk | hk
      · obtain ⟨hrun, l, hl, hle, hout⟩ := isOpen_eq_true.mp hk
        rcases Nat.lt_or_ge k s.bridge.logins.length with hlt | hge
        · rw [Bridge.login, List.getElem?_append_left hlt] at hl
          exact absurd (.inl (isOpen_eq_true.mpr ⟨hrun, l, hl, hle, hout⟩)) (hnone k)
        · have := (List.getElem?_eq_some_iff.mp hl).1
          simp only [Bridge.login, List.length_append, List.length_cons, List.length_nil] at this ⊢
          omega
      · exact absurd (.inr hk) (hnone k)
    · simp [hst] at hst'

theorem Attributed.startConnection {id : OpId} {email : Address} (h : s.Attributed cfg) (hwf : s.accounts.Wf) :
    (s.startConnection n id email).1.Attributed cfg := by
  unfold State.startConnection
  split
  · exact h
  · split
    · exact h
    next hbusy =>
      have hslot := (busy_eq_false (Bool.not_eq_true _ ▸ hbusy)).1
      have h₁ := h.ensureStarted (n := n) hwf fun _ _ => unsettled_of_silent (h.live.of_slot_none hslot)
      split
      next heq =>
        rw [heq] at h₁
        exact h₁
      next t heq =>
        have hst := started_of_ensureStarted heq
        rw [heq] at h₁
        split
        · exact h₁
        next hbusy' =>
          have hslot' := (busy_eq_false (Bool.not_eq_true _ ▸ hbusy')).1
          split
          · exact h₁
          next users _ =>
            have hlogin := @Attributed.login _ _ n id { email := email, createdAt := t.now, preexisting := users } h₁ hslot'
              hst rfl (fun h => by cases h) rfl
            have h₂ : ({ State.persist { t with
                accounts := { t.accounts with
                  operations := t.accounts.operations.insert id { email := email, createdAt := t.now, preexisting := users }
                  slot := some id } } with bridge := (t.bridge.login id n).1 } : State).Attributed cfg :=
              ⟨{ hlogin.streams with }, { hlogin.live with }⟩
            dsimp only
            split
            · exact h₂
            · refine (h₂.endOp (fun h => by cases h) fun op hop => ?_).persist
              have hop : (t.accounts.operations.insert id _).lookup id = some op := hop
              rw [Table.lookup_insert', if_pos rfl] at hop
              obtain rfl := Option.some.inj hop
              rfl

/-- The answer to a challenge goes to the login of the slot's operation. -/
theorem Attributed.continueLogin {id : OpId} {op : Operation} (h : s.Attributed cfg) (hwf : s.accounts.Wf)
    (hslot : s.accounts.slot = some id) (hop : s.accounts.operations.lookup id = some op) (hact : op.state.active = true)
    (hcheck : op.state ≠ .checking) : ({ s with bridge := (s.bridge.continueLogin n).1 } : State).Attributed cfg := by
  have hholder : s.accounts.holder = some op := Accounts.holder_eq_some.mpr ⟨id, hslot, hop⟩
  have hmark := hwf.not_marked_of_active hop hact
  obtain ⟨l, hl, hlop, hlout⟩ := h.live.last id hslot
  unfold Bridge.continueLogin
  dsimp only
  split
  next hsent =>
    have hget : ∀ k, (s.bridge.logins.modify (s.bridge.logins.length - 1)
        fun l => if l.outcome = none then { l with epoch := s.bridge.epoch } else l)[k]? =
        if s.bridge.logins.length - 1 = k then s.bridge.logins[k]?.map fun l =>
          if l.outcome = none then { l with epoch := s.bridge.epoch } else l
        else s.bridge.logins[k]? := fun k => by
      rw [List.getElem?_modify]
      split <;> cases s.bridge.logins[k]? <;> rfl
    have hsame : ∀ l : Login, (if l.outcome = none then { l with epoch := s.bridge.epoch } else l).outcome = l.outcome ∧
        (if l.outcome = none then { l with epoch := s.bridge.epoch } else l).op = l.op := fun l => by
      split <;> exact ⟨rfl, rfl⟩
    constructor
    · constructor
      · intro l' hl'
        obtain ⟨k, hk⟩ := List.mem_iff_getElem?.mp hl'
        rw [hget] at hk
        split at hk
        · obtain ⟨l₀, hl₀, rfl⟩ := Option.map_eq_some_iff.mp hk
          split
          · exact Nat.le_refl _
          · exact h.streams.epochs l₀ (List.mem_of_getElem? hl₀)
        · exact h.streams.epochs l' (List.mem_of_getElem? hk)
      · exact h.streams.waited
      · exact h.streams.ordered
      · intro k e he
        rw [List.length_modify]
        exact h.streams.causes k e he
      · intro k e o he ho
        obtain ⟨l₀, hl₀, hout⟩ := h.streams.ended k e o he ho
        rw [hget]
        split
        · exact ⟨_, by rw [hl₀]; rfl, (hsame l₀).1.trans hout⟩
        · exact ⟨l₀, hl₀, hout⟩
      · exact h.streams.order
    · refine ⟨fun c hc => ?_, fun k hk => ?_, h.live.idle⟩
      · obtain rfl : id = c := Option.some.inj (hslot.symm.trans hc)
        refine ⟨if l.outcome = none then { l with epoch := s.bridge.epoch } else l, ?_, (hsame l).2.trans hlop,
          fun op' hop' hsome => ?_⟩
        rotate_left
        · rw [(hsame l).1]
          exact hlout op' hop' hsome
        rw [List.getLast?_eq_getElem?, List.length_modify, hget, if_pos rfl, ← List.getLast?_eq_getElem?, hl]
        rfl
      · have hback : s.Reports k ∨ k + 1 = s.bridge.logins.length ∧ op.userId = none := by
          rcases hk with hk | hk
          · obtain ⟨hrun, l', hl', hle, hout⟩ := isOpen_eq_true.mp hk
            rw [hget] at hl'
            split at hl'
            next hlast =>
              obtain ⟨l₀, hl₀, rfl⟩ := Option.map_eq_some_iff.mp hl'
              have hlt := (List.getElem?_eq_some_iff.mp hl₀).1
              refine .inr ⟨by omega, ?_⟩
              have : l = l₀ := Option.some.inj (by rw [← hl, List.getLast?_eq_getElem?, hlast, hl₀])
              subst this
              rw [(hsame l).1] at hout
              by_contra huser
              have := hlout op hholder (Option.isSome_iff_ne_none.mpr huser)
              simp [hout] at this
            next => exact .inl (.inl (isOpen_eq_true.mpr ⟨hrun, l', hl', hle, hout⟩))
          · exact .inl (.inr hk)
        rw [List.length_modify]
        rcases hback with hk | ⟨hlast, huser⟩
        · exact h.live.reports k hk
        · exact ⟨hlast, op, hholder, huser, hcheck, fun hm => by simp [hmark] at hm⟩
  next => exact ⟨{ h.streams with }, { h.live with }⟩

theorem Attributed.continueConnection {id : OpId} {challenge : OpState} (h : s.Attributed cfg) (hwf : s.accounts.Wf) :
    (s.continueConnection n id challenge).1.Attributed cfg := by
  unfold State.continueConnection
  split
  · exact h
  next op hop =>
    split
    next hcond =>
      simp only [Bool.and_eq_true, Bool.or_eq_true, decide_eq_true_eq] at hcond
      obtain ⟨⟨hch, hstate⟩, hslot⟩ := hcond
      have hact : op.state.active = true := by
        rw [hstate]
        rcases hch with rfl | rfl <;> rfl
      have huniq : ∀ op', s.accounts.operations.lookup id = some op' → op'.state.active = true := fun op' hop' =>
        Option.some.inj (hop'.symm.trans hop) ▸ hact
      have hkeeps : s.accounts.Keeps (s.accounts.modify id fun op => { op with state := .authenticating, errorCode := none }) :=
        .modify fun op _ _ => ⟨rfl, fun h => (by cases h), fun hm => ⟨hm, rfl⟩⟩
      have hwf' : (s.accounts.modify id fun op => { op with state := .authenticating, errorCode := none }).Wf :=
        hwf.advance huniq fun _ => ⟨rfl, rfl, rfl⟩
      have hlookup : (s.accounts.modify id fun op => { op with state := .authenticating, errorCode := none }).operations.lookup id =
          some { op with state := .authenticating, errorCode := none } := by
        rw [Accounts.lookup_modify, if_pos rfl, hop]
        rfl
      have hcont := (h.keeps hkeeps).persist.continueLogin (n := n) hwf' hslot hlookup rfl (fun h => by cases h)
      dsimp only
      split
      · exact Attributed.persist hcont
      · refine Attributed.persist (Attributed.endOp hcont (by decide) fun op' hop' => ?_)
        obtain rfl := Option.some.inj (Eq.trans hop'.symm hlookup)
        exact hwf'.not_marked_of_active hlookup rfl
    next => exact h

theorem Attributed.cancelConnection {id : OpId} (h : s.Attributed cfg) (hwf : s.accounts.Wf) :
    (s.cancelConnection id).1.Attributed cfg := by
  unfold State.cancelConnection
  split
  · exact h
  next op hop =>
    have huniq : ∀ op', s.accounts.operations.lookup id = some op' → op' = op := fun op' hop' =>
      Option.some.inj (hop'.symm.trans hop)
    refine Attributed.persist (h.settles ?_)
    split
    next hcon =>
      simp only [Bool.and_eq_true, decide_eq_true_eq] at hcon
      refine .inl ((Accounts.Keeps.endOp (by decide) fun op' hslot hop' => ?_).trans .dropAttemptUser)
      exact absurd (huniq op' hop' ▸ hcon.1) ((hwf.rows id op' hop').slot hslot)
    next =>
      split
      next hact => exact .stopAttempt hwf (by decide) fun op' hop' => huniq op' hop' ▸ hact
      next => exact .inl (.refl _)

theorem Attributed.commitConnection {id : OpId} {u : UserId} {g : Generation} {previous : Option Generation}
    (h : s.Attributed cfg) (hwf : s.accounts.Wf) : (s.commitConnection cfg id u g previous).1.Attributed cfg := by
  unfold State.commitConnection
  split
  · exact h
  next op hop =>
    split
    · exact h
    · split
      · exact h
      next hcon =>
        split
        · exact h
        · split
          · exact h
          · simp only [ne_eq, Bool.or_eq_true, decide_eq_true_eq, not_or, Decidable.not_not] at hcon
            have hlink : s.accounts.Keeps { s.accounts with links := s.accounts.links.insert (u, op.email) g } := .of_eq rfl rfl
            refine Attributed.persist (h.keeps ?_)
            split
            · exact hlink
            · refine hlink.trans (.modify fun op' hslot hop' => ?_)
              obtain rfl : op' = op := Option.some.inj (Eq.trans hop'.symm hop)
              exact absurd hcon.1 ((hwf.rows id op' hop).slot hslot)

theorem Attributed.credentials {u : UserId} {owner : Owner} (h : s.Attributed cfg) (hwf : s.accounts.Wf)
    (hset : s.started = false → s.bridge.running = true → s.unsettled = false) :
    (s.credentials cfg n u owner).1.Attributed cfg := by
  have h₁ := h.ensureStarted (n := n) hwf hset
  unfold State.credentials
  split
  · exact h
  · split
    next heq =>
      rw [heq] at h₁
      exact h₁
    next heq =>
      rw [heq] at h₁
      exact h₁

theorem Attributed.removeUser {u : UserId} {g : Generation} {email : Address} (h : s.Attributed cfg) (hwf : s.accounts.Wf)
    (hset : s.started = false → s.bridge.running = true → s.unsettled = false) :
    (s.removeUser cfg n u g email).1.Attributed cfg := by
  unfold State.removeUser
  split
  · exact h
  · split
    · exact h
    · split
      · exact h
      · dsimp only
        have h₁ : (if (s.accounts.links.entries.any fun e => e.1.1 = u && e.1 ≠ (u, email)) = true then (s, .ok ())
            else s.ensureStarted n : State × Except WorkerError Unit).1.Attributed cfg := by
          split
          · exact h
          · exact h.ensureStarted hwf hset
        split
        next heq =>
          rw [heq] at h₁
          exact h₁
        next s₁ heq =>
          rw [heq] at h₁
          have hunlink : s₁.accounts.Keeps { s₁.accounts with links := s₁.accounts.links.erase (u, email) } := .of_eq rfl rfl
          split
          · exact (h₁.keeps hunlink).persist
          · split
            · exact (h₁.keeps (hunlink.trans .handOver)).persist
            · refine (h₁.keeps (hunlink.trans ?_)).persist
              split
              · exact .refl _
              · exact .beginRemoval

/-! ## The gate -/

/-- A holder that ends for the snapshot is marked. -/
theorem settleHolder_cases (hwf : s.accounts.Wf) : s.settleHolder = s.accounts ∨ ∃ a id, s.accounts.Settles a ∧
    s.settleHolder = a.modify id fun op => if op.state.terminal then { op with reconcile := true } else op := by
  unfold State.settleHolder
  split
  next id op hslot hholder =>
    obtain ⟨id', hid, hop⟩ := Accounts.holder_eq_some.mp hholder
    obtain rfl : id = id' := Option.some.inj (hslot.symm.trans hid)
    refine .inr ⟨_, id, ?_, rfl⟩
    split
    next hact => exact .stopAttempt hwf (by decide) fun op' hop' => Option.some.inj (hop'.symm.trans hop) ▸ hact
    next => exact .inl (.refl _)
  next => exact .inl rfl

/-- Where nothing may report, the holder may end and be marked. -/
theorem Attributed.settleHolder (h : s.Attributed cfg) (hwf : s.accounts.Wf)
    (hsilent : s.bridge.running = true → ∀ k, ¬s.Reports k) :
    ({ s with accounts := s.settleHolder } : State).Attributed cfg := by
  obtain heq | ⟨a, id, hsettles, heq⟩ := settleHolder_cases hwf <;> rw [heq]
  · exact h
  · exact (h.settles hsettles).marks hsilent fun op => by split <;> exact ⟨rfl, rfl⟩

theorem Wf.recovery_none (hwf : s.Wf) (hrec : s.recovering = false) : s.recovery = none := by
  by_contra hsome
  simp [hwf.recovery (Option.isSome_iff_ne_none.mpr hsome)] at hrec

theorem Attributed.stopForSnapshot {id : SnapshotId} (h : s.Attributed cfg) (hwf : s.Wf) (hrec : s.recovering = false) :
    (s.stopForSnapshot n id).1.Attributed cfg := by
  have hnone := hwf.recovery_none hrec
  unfold State.stopForSnapshot
  dsimp only
  split
  next hst =>
    have hdown : ∀ started lost snapshot, (started = false → s.bridge.running = true → n.stops = true) →
        ({ s with bridge := (s.bridge.shutdown n).1, started := started, nativeLost := lost, snapshot := snapshot } :
          State).Attributed cfg ∧
        ∀ k, ¬({ s with bridge := (s.bridge.shutdown n).1, started := started, nativeLost := lost, snapshot := snapshot } :
          State).Reports k := fun started lost snapshot hstop => by
      have hf : s.Fewer { s with bridge := (s.bridge.shutdown n).1, started := started, nativeLost := lost, snapshot := snapshot } :=
        .of_eq rfl (Nat.le_succ _) rfl (List.nil_sublist _)
      refine ⟨h.newEpoch hf (Nat.lt_succ_self _) rfl h.live.last fun hst' hrun => ?_, h.streams.silent hf (Nat.lt_succ_self _) rfl⟩
      have hrun : (s.bridge.running && !n.stops) = true := hrun
      simp only [Bool.and_eq_true, Bool.not_eq_true'] at hrun
      simp [hstop hst' hrun.1] at hrun
    split
    next hstop =>
      obtain ⟨h', hsilent⟩ := hdown false s.nativeLost s.snapshot fun _ _ => hstop
      have h'' := h'.settleHolder hwf.accounts fun _ => hsilent
      exact ⟨{ h''.streams with }, { h''.live with }⟩
    next =>
      obtain ⟨h', hsilent⟩ := hdown s.started true none fun hst' => by simp [hst] at hst'
      have h'' := h'.settleHolder hwf.accounts fun _ => hsilent
      exact ⟨{ h''.streams with }, { h''.live with }⟩
  next hst =>
    have h' := h.settleHolder hwf.accounts fun hrun k => by
      rcases h.live.idle (by simpa using hst) hrun with hslot | hsome
      · exact h.live.of_slot_none hslot k
      · simp [hnone] at hsome
    exact ⟨{ h'.streams with }, { h'.live with }⟩

theorem Attributed.drain {w : Waiter} (h : s.Attributed cfg) (hwf : s.Wf) : (s.drain cfg n w).1.Attributed cfg := by
  unfold State.drain
  split
  · exact h
  · split
    next hidle =>
      simp only [loginActive, Bool.and_eq_true, Bool.not_eq_true', Bool.or_eq_false_iff] at hidle
      exact h.stopForSnapshot hwf hidle.2.1.1.2
    next =>
      split
      · exact ⟨{ h.streams with }, { h.live with }⟩
      · exact ⟨{ h.streams with }, { h.live with }⟩

theorem Attributed.snapshotBegin {id : SnapshotId} (h : s.Attributed cfg) (hwf : s.Wf) :
    (s.snapshotBegin cfg n id).1.Attributed cfg := by
  unfold State.snapshotBegin
  dsimp only
  split
  · split
    · exact ⟨{ h.streams with }, { h.live with }⟩
    · split
      · exact h
      · exact ⟨{ h.streams with }, { h.live with }⟩
  · exact Attributed.drain ⟨{ h.streams with }, { h.live with }⟩ ⟨hwf.accounts, hwf.journal, hwf.recovery⟩

theorem Attributed.openGate (h : s.Attributed cfg) (hwf : s.accounts.Wf)
    (hset : s.started = false → s.bridge.running = true → s.unsettled = false) : (s.openGate cfg n).Attributed cfg := by
  have hopen : State.Attributed cfg { s with snapshot := none, granted := none } := ⟨{ h.streams with }, { h.live with }⟩
  unfold State.openGate
  dsimp only
  split
  · have h₁ := hopen.ensureStarted (n := n) hwf hset
    split
    next heq =>
      rw [heq] at h₁
      exact h₁.persist
    next heq =>
      rw [heq] at h₁
      exact ⟨{ h₁.streams with }, { h₁.live with }⟩
  · exact hopen.persist

theorem Attributed.snapshotEnd {id : SnapshotId} (h : s.Attributed cfg) (hwf : s.accounts.Wf)
    (hset : s.started = false → s.bridge.running = true → s.unsettled = false) : (s.snapshotEnd cfg n id).1.Attributed cfg := by
  unfold State.snapshotEnd
  split
  · exact h
  · split
    · exact h.openGate hwf hset
    · exact h

/-! ## The timers -/

/-- No operation whose login may still report to the process in place is marked. -/
def Unmarked (s : State) : Prop :=
  s.bridge.running = true → ∀ k, s.Reports k → ∀ op, s.accounts.holder = some op → op.reconcile = false

theorem holderDue_eq_true : s.holderDue cfg = true ↔ ∃ op, s.accounts.holder = some op ∧ op.state.terminal = true ∧
    (∃ t, op.endedAt = some t ∧ t + cfg.recoverySeconds ≤ s.now) ∧
      ∀ u, op.userId = some u → s.accounts.pendingRemovals.lookup u = none := by
  simp only [holderDue, Option.any_eq_true, Bool.and_eq_true, decide_eq_true_eq, Option.all_eq_true, Option.isNone_iff_eq_none,
    and_assoc]

theorem Attributed.markHolder (h : s.Attributed cfg) (hdue : s.holderDue cfg = true) : s.markHolder.Attributed cfg := by
  obtain ⟨op, hholder, -, hended, -⟩ := holderDue_eq_true.mp hdue
  obtain ⟨id, hslot, hop⟩ := Accounts.holder_eq_some.mp hholder
  have hholder' : (s.accounts.modify id fun op => { op with reconcile := true }).holder = some { op with reconcile := true } := by
    refine Accounts.holder_eq_some.mpr ⟨id, hslot, ?_⟩
    rw [Accounts.lookup_modify, if_pos rfl, hop]
    rfl
  have heq : s.markHolder = { s with accounts := s.accounts.modify id fun op => { op with reconcile := true } } := by
    unfold State.markHolder
    rw [hslot]
  rw [heq]
  refine ⟨{ h.streams with }, fun c hc => ?_, fun k hk => ?_, h.live.idle⟩
  · obtain ⟨l, hl, hlop, hout⟩ := h.live.last c hc
    refine ⟨l, hl, hlop, fun op' hop' hsome => ?_⟩
    obtain rfl := Option.some.inj (hholder'.symm.trans hop')
    exact hout op hholder hsome
  · obtain ⟨hlast, op', hop', huser, hcheck, -⟩ := h.live.reports k hk
    obtain rfl : op = op' := Option.some.inj (hholder.symm.trans hop')
    exact ⟨hlast, _, hholder', huser, hcheck, fun _ _ => hended⟩

theorem Attributed.tickRemovals (h : s.Attributed cfg) (hwf : s.accounts.Wf) : (s.tickRemovals cfg n).1.Attributed cfg ∧
    ((s.tickRemovals cfg n).2 = false → (s.tickRemovals cfg n).1.Unmarked) := by
  unfold State.tickRemovals
  dsimp only
  set t : State := { s with accounts := (s.accounts.removalTimers s.now (decide (s.timers.nextRecoveryAt ≤ s.now))
    fun u => s.list n (.timer u)).1 } with ht
  have h' : t.Attributed cfg := h.keeps .removalTimers
  have hwf' : t.accounts.Wf := hwf.removalTimers
  split
  next hdue =>
    refine ⟨h'.markHolder hdue, fun hrec => ?_⟩
    simp [hdue] at hrec
  next hdue =>
    refine ⟨h', fun _ hrun k hk op hop => ?_⟩
    by_contra hmark
    have hmark : op.reconcile = true := by simpa using hmark
    obtain ⟨-, op', hop', huser, -, hended⟩ := h'.live.reports k hk
    obtain rfl : op = op' := Option.some.inj (hop.symm.trans hop')
    obtain ⟨id, -, hlookup⟩ := Accounts.holder_eq_some.mp hop
    refine hdue (holderDue_eq_true.mpr ⟨op, hop, (hwf'.marked hlookup hmark).1, hended hmark hrun, fun u hu => ?_⟩)
    simp [huser] at hu

theorem Attributed.tickBridge {recover : Bool} (h : s.Attributed cfg) (hwf : s.accounts.Wf) (hrec : s.recovery = none)
    (hmark : recover = false → s.Unmarked) : (s.tickBridge cfg n recover).1.Attributed cfg ∧
      ((s.tickBridge cfg n recover).2 = false → (s.tickBridge cfg n recover).1.alive = true →
        (s.tickBridge cfg n recover).1.Unmarked) := by
  have hset : s.started = false → s.bridge.running = true → s.unsettled = false := fun hst hrun => by
    rcases h.live.idle hst hrun with hslot | hsome
    · exact unsettled_of_silent (h.live.of_slot_none hslot)
    · simp [hrec] at hsome
  unfold State.tickBridge
  split
  next hdead =>
    split
    next => exact ⟨h, fun h => by cases h⟩
    next hneed =>
      simp only [Bool.or_eq_true, not_or, Bool.not_eq_true, Option.isSome_eq_false_iff, Option.isNone_iff_eq_none] at hneed
      refine ⟨⟨{ h.streams with }, h.live.last, h.live.reports, fun _ _ => .inl hneed.2⟩, fun _ halive => ?_⟩
      cases halive
  next =>
    split
    next hstart =>
      simp only [Bool.and_eq_true, Bool.not_eq_true'] at hstart
      have h₁ := h.ensureStarted (n := n) hwf hset
      split
      next t heq =>
        have hsilent := h.silent_of_started hstart.1.1 hrec heq
        rw [heq] at h₁
        exact ⟨h₁, fun _ _ _ k hk => absurd hk (hsilent k)⟩
      next t e heq =>
        have halive : t.alive = false := by
          obtain ⟨heq', -⟩ | ⟨heq', halive, -⟩ | ⟨-, -, ⟨_, -, heq'⟩ | ⟨-, heq'⟩⟩ := @ensureStarted_cases s n <;>
            rw [heq, Prod.mk.injEq] at heq'
          · cases heq'.2
          · exact heq'.1 ▸ halive
          · cases heq'.2
          · rw [heq'.1]
            rfl
        rw [heq] at h₁
        exact ⟨⟨{ h₁.streams with }, { h₁.live with }⟩, fun _ halive' => absurd (Eq.trans halive.symm halive') (by decide)⟩
    next => exact ⟨h, fun hr _ => hmark hr⟩

theorem Attributed.tickReconcile {recover : Bool} (h : s.Attributed cfg) (hwf : s.accounts.Wf)
    (hmark : recover = false → s.alive = true → s.Unmarked) : (s.tickReconcile n recover).1.Attributed cfg := by
  unfold State.tickReconcile
  split
  next hcond =>
    simp only [Bool.and_eq_true, Bool.not_eq_true', decide_eq_true_eq] at hcond
    obtain ⟨⟨⟨hrec, halive⟩, hpending⟩, -⟩ := hcond
    have hrun : s.bridge.running = true := by
      simp only [alive, Bool.and_eq_true] at halive
      exact halive.2
    -- The slot's operation would be the one marked, and due for a recovery instead.
    have hsilent : ∀ k, ¬s.Reports k := fun k hk => by
      obtain ⟨-, op, hop, -⟩ := h.live.reports k hk
      obtain ⟨id, op', hop', hm⟩ := Accounts.reconcilePending_eq_true.mp hpending
      obtain ⟨c, hc, hlookup⟩ := Accounts.holder_eq_some.mp hop
      obtain rfl := (hwf.marked hop' hm).2 c hc
      obtain rfl : op = op' := Option.some.inj (hlookup.symm.trans hop')
      simp [hmark hrec halive hrun k hk op hop] at hm
    obtain ⟨timers, heq⟩ := @reconcileAll_eq s n
    have h' := h.reconciled hwf hwf.reconcileAll (unsettled_of_silent hsilent) Accounts.Rows.reconcileAll
      (@Accounts.reconcileAll_slot _ s.now (fun id => s.list n (.orphans id)) hwf)
    dsimp only
    rw [heq]
    exact ⟨{ h'.streams with }, { h'.live with }⟩
  next => exact h

theorem Attributed.tickChecks (h : s.Attributed cfg) (hwf : s.Wf) (hrec : s.recovering = false) :
    (s.tickChecks cfg n).1.Attributed cfg := by
  obtain ⟨h₁, hmark₁⟩ := h.tickRemovals (n := n) hwf.accounts
  have hwf₁ : (s.tickRemovals cfg n).1.Wf := hwf.tickRemovals
  have hnone : (s.tickRemovals cfg n).1.recovery = none := (recovery_of_outer tickRemovals_outer).trans (hwf.recovery_none hrec)
  obtain ⟨h₂, hmark₂⟩ := h₁.tickBridge (n := n) hwf₁.accounts hnone hmark₁
  exact h₂.tickReconcile hwf₁.tickBridge.accounts hmark₂

theorem Attributed.tickOpen (h : s.Attributed cfg) (hwf : s.Wf) : (s.tickOpen cfg n).Attributed cfg := by
  have hexp : (s.tickExpire cfg).Attributed cfg := h.settles (.expire hwf.accounts)
  have hwf' : (s.tickExpire cfg).Wf := hwf.setAccounts hwf.accounts.expire
  have hchecked : (if (s.tickExpire cfg).recovering then (s.tickExpire cfg, false)
      else (s.tickExpire cfg).tickChecks cfg n).1.Attributed cfg := by
    split
    · exact hexp
    next hrec => exact hexp.tickChecks hwf' (by simpa using hrec)
  have hprune := hchecked.keeps (@Accounts.Keeps.prune _ (if (s.tickExpire cfg).recovering then (s.tickExpire cfg, false)
      else (s.tickExpire cfg).tickChecks cfg n).1.now cfg.ttlSeconds)
  exact ⟨{ hprune.streams with }, { hprune.live with }⟩

theorem Attributed.tick (h : s.Attributed cfg) (hwf : s.Wf)
    (hset : s.started = false → s.bridge.running = true → s.unsettled = false) : (s.tick cfg n).Attributed cfg := by
  obtain ⟨-, heq⟩ | ⟨t, -, ⟨rfl, -⟩ | rfl, heq⟩ := @tick_cases cfg s n <;> rw [heq]
  · exact h
  · exact h.tickOpen hwf
  · exact (h.openGate hwf.accounts hset).tickOpen hwf.openGate

theorem Attributed.recoverNative (h : s.Attributed cfg) : (s.recoverNative cfg n).Attributed cfg :=
  (h.launch (t := s.recoverNative cfg n) rfl rfl h.live.last fun _ _ => .inr rfl).1

theorem Attributed.recovered {ok : Bool} (h : s.Attributed cfg) (hwf : s.accounts.Wf)
    (hdown : ok = false → s.bridge.running = false) (hset : ok = true → s.unsettled = false) :
    (s.recovered n ok).Attributed cfg := by
  have h' : State.Attributed cfg { s with recovering := false, recovery := none, started := ok, nativeLost := false } := by
    refine ⟨{ h.streams with }, h.live.last, h.live.reports, fun hst hrun => ?_⟩
    have hrun : s.bridge.running = true := hrun
    simp [hdown hst] at hrun
  unfold State.recovered
  dsimp only
  split
  next hok => exact (h'.afterRestart hwf (hset hok)).persist
  next hok =>
    split
    · exact h'.persist
    · refine (h'.marks (f := fun op => { op with endedAt := some s.now }) (fun hrun => ?_) fun _ => ⟨rfl, rfl⟩).persist
      have hrun : s.bridge.running = true := hrun
      simp [hdown (by simpa using hok)] at hrun

theorem Attributed.boot (h : s.Attributed cfg) (hwf : s.accounts.Wf)
    (hset : s.started = false → s.bridge.running = true → s.unsettled = false) : (s.boot n).Attributed cfg := by
  unfold State.boot
  split
  · have h₁ := h.ensureStarted (n := n) hwf hset
    split
    next heq =>
      rw [heq] at h₁
      exact h₁.persist
    next heq =>
      rw [heq] at h₁
      exact h₁
  · exact h

theorem Attributed.restart {sent : List UserId} (h : s.Attributed cfg) : (s.restart sent).Attributed cfg := by
  refine h.newEpoch ⟨rfl, Nat.le_succ _, List.nil_sublist _, [], [], rfl, List.nil_sublist _, by simp⟩ (Nat.lt_succ_self _) rfl
    (fun id hid => by cases hid) fun _ hrun => by cases hrun

end State

end MailExpert.ProtonWorker
