import MailExpert.ProtonWorker.UserTimers

/-!
# The users of Bridge over whole runs

The event that ends a login tells the slot's operation its user, and hands the user on when the operation gives the slot up.
So a run under `RemovalGuard` keeps `Covered` and `Recorded`: whenever the login slot is free and no operation is marked,
something answers for every user that Bridge holds.
-/

namespace MailExpert.ProtonWorker

namespace State

variable {cfg : Config} {s s' t : State} {n : Native}

/-- An event that does not end its login. -/
theorem onLoginEvent_serves {users initial : List UserId} {e : LoginEvent} (hwf : s.accounts.Wf) (hc : s.accounts.Checked)
    (he : e.outcome? = none) : s.accounts.Serves users initial s.now (s.onLoginEvent n e) := by
  unfold State.onLoginEvent
  split
  next id op hslot hholder =>
    obtain ⟨id', hid, hop⟩ := Accounts.holder_eq_some.mp hholder
    obtain rfl : id = id' := Option.some.inj (hslot.symm.trans hid)
    have hunique : ∀ op', s.accounts.operations.lookup id = some op' → op' = op := fun op' hop' => Option.some.inj (hop'.symm.trans hop)
    have hback : ∀ (state : OpState) (code : Option ErrorCode), state ≠ .checking → op.state.active = true →
        s.accounts.Serves users initial s.now (s.accounts.modify id fun op => { op with state := state, errorCode := code }) :=
      fun state code hstate hact => .modify fun op' hop' =>
        ⟨⟨rfl, rfl, .inl rfl, fun h => absurd h hstate, fun _ => hunique op' hop' ▸ hact⟩, fun h => h, fun h => h, .inl hslot⟩
    have hstay : ∀ state : OpState, state ≠ .checking → op.state.active = true →
        s.accounts.Serves users initial s.now (s.accounts.modify id fun op => { op with state := state }) :=
      fun state hstate hact => .modify fun op' hop' =>
        ⟨⟨rfl, rfl, .inl rfl, fun h => absurd h hstate, fun _ => hunique op' hop' ▸ hact⟩, fun h => h, fun h => h, .inl hslot⟩
    cases e with
    | needs2fa =>
      dsimp only
      split
      next hact => exact hstay _ (by decide) hact
      next => exact .refl _
    | needsSecondPassword =>
      dsimp only
      split
      next hact => exact hstay _ (by decide) hact
      next => exact .refl _
    | hv =>
      dsimp only
      split
      next hact => exact .stopAttempt hwf hc rfl fun op' hop' => hunique op' hop' ▸ hact
      next => exact .refl _
    | error code =>
      have hcheck : ∀ st, code.retryable? = some st → st ≠ .checking := by cases code <;> simp [NativeCode.retryable?]
      dsimp only
      unfold Accounts.onLoginError
      split
      next st hcode =>
        split
        next hact => exact hback _ _ (hcheck st hcode) hact
        next => exact .refl _
      next hcode => simp [LoginEvent.outcome?, hcode] at he
    | finished u => cases he
    | alreadyLoggedIn u => cases he
  next => exact .refl _

/-- The slot is given up by an operation whose user, if it has one, something else answers for. -/
theorem Covered.release {id : OpId} (h : s.Covered) (hsigned : ∀ u, ¬s.Signed u)
    (huser : ∀ op, s.accounts.operations.lookup id = some op → op.userId = none) :
    ({ s with accounts := s.accounts.release id } : State).Covered := by
  unfold Accounts.release
  split
  next hslot =>
    refine ⟨fun u hu => ?_, h.checked, h.clock, fun op hop => ?_⟩
    · rcases h.users u hu with hk | hm | hs
      · rcases Accounts.kept_eq_true.mp hk with hans | ⟨op, hop, hsome, -⟩
        · exact .inl (Accounts.kept_of_answered (Accounts.answered_mono hans Accounts.answered_of_linked Accounts.answered_of_pending
            fun k op hop hc => Accounts.answered_of_claims hop hc))
        · obtain ⟨k, hk, hop⟩ := Accounts.holder_eq_some.mp hop
          obtain rfl : id = k := Option.some.inj (hslot.symm.trans hk)
          simp [huser op hop] at hsome
      · exact .inr (.inl hm)
      · exact absurd hs (hsigned u)
    · simp [Accounts.holder_none (a := { s.accounts with slot := none }) rfl] at hop
  next => exact h

/-- The operation in the slot learns which user its login signed in. -/
theorem Covered.signedIn {id : OpId} {op : Operation} {u : UserId} {finished : Bool} {f : Operation → Operation} (h : s.Covered)
    (hslot : s.accounts.slot = some id) (hop : s.accounts.operations.lookup id = some op) (hnone : op.userId = none)
    (hf : ∀ op, (f op).userId = some u ∧ (f op).createdByAttempt = (finished && !op.preexisting.contains u) ∧
      (f op).createdAt = op.createdAt ∧ (f op).endedAt = op.endedAt ∧ (f op).reconcile = op.reconcile)
    (hsigned : ∀ v, s.Signed v → finished = true ∧ v = u ∧ (op.preexisting.contains u = false ∨ s.accounts.answered s.initial u = true))
    (hdone : ∀ k e, k + 1 = s.bridge.logins.length → s.Sent (.login k e) → e.outcome? = none) :
    ({ s with accounts := s.accounts.modify id f } : State).Covered := by
  have hrow : (s.accounts.modify id f).operations.lookup id = some (f op) := by
    rw [Accounts.lookup_modify, if_pos rfl, hop]
    rfl
  have hans : ∀ v, s.accounts.answered s.initial v = true → (s.accounts.modify id f).answered s.initial v = true := fun v hv =>
    Accounts.answered_mono hv (fun hl => Accounts.answered_of_linked hl) (fun hp => Accounts.answered_of_pending hp)
      fun k op' hop' hc => by
        refine @Accounts.answered_of_claims _ k op' _ _ ?_ hc
        have hne : k ≠ id := fun heq => by
          subst heq
          obtain rfl : op = op' := Option.some.inj (hop.symm.trans hop')
          simp [Operation.claims_eq_true, hnone] at hc
        rw [Accounts.lookup_modify, if_neg hne]
        exact hop'
  have hholder : (s.accounts.modify id f).holder = some (f op) := Accounts.holder_eq_some.mpr ⟨id, hslot, hrow⟩
  refine ⟨fun v hv => ?_, fun k op' hop' hc => ?_, fun k op' hop' => ?_, fun _ _ _ => hdone⟩
  · rcases h.users v hv with hk | hm | hs
    · rcases Accounts.kept_eq_true.mp hk with hk | ⟨op', hop', hsome, -⟩
      · exact .inl (Accounts.kept_of_answered (hans v hk))
      · obtain ⟨k, hk, hop'⟩ := Accounts.holder_eq_some.mp hop'
        obtain rfl : id = k := Option.some.inj (hslot.symm.trans hk)
        obtain rfl : op = op' := Option.some.inj (hop.symm.trans hop')
        simp [hnone] at hsome
    · refine .inr (.inl ?_)
      obtain ⟨k, op', hop', hmark⟩ := Accounts.reconcilePending_eq_true.mp hm
      refine Accounts.reconcilePending_eq_true.mpr ⟨k, if k = id then f op' else op', ?_, ?_⟩
      · show (s.accounts.modify id f).operations.lookup k = _
        rw [Accounts.lookup_modify]
        split
        next heq => rw [← heq, hop']; rfl
        next => exact hop'
      · split
        · exact (hf op').2.2.2.2.trans hmark
        · exact hmark
    · obtain ⟨rfl, rfl, hpre | hu⟩ := hsigned v hs
      · refine .inl (Accounts.kept_eq_true.mpr (.inr ⟨f op, hholder, (hf op).1, ?_⟩))
        rw [(hf op).2.1, hpre]
        rfl
      · exact .inl (Accounts.kept_of_answered (hans v hu))
  · obtain ⟨-, op₀, -, rfl⟩ | ⟨-, hop'⟩ := Accounts.lookup_modify_some.mp hop'
    · rw [(hf op₀).1]
      rfl
    · exact h.checked k op' hop' hc
  · obtain ⟨-, op₀, h₀, rfl⟩ | ⟨-, hop'⟩ := Accounts.lookup_modify_some.mp hop'
    · rw [(hf op₀).2.2.1, (hf op₀).2.2.2.1]
      exact h.clock _ op₀ h₀
    · exact h.clock k op' hop'

/-- No other event that ends the login is on its way. -/
theorem Attributed.ends_once {i epoch k : Nat} {e : LoginEvent} {o : Outcome} (h : s.Attributed cfg)
    (hw : s.waiting[i]? = some (epoch, .login k e)) (ho : e.outcome? = some o) {e' : LoginEvent}
    (he' : ({ s with waiting := s.waiting.eraseIdx i } : State).Sent (.login k e')) : e'.outcome? = none := by
  have hnot : ∀ e', Follows (.login k e) (.login k e') → False := fun e' hf => by simp [hf k e e' rfl rfl] at ho
  have hmem := List.mem_of_getElem? hw
  rcases he' with he' | ⟨epoch', he'⟩
  · exact absurd ((List.pairwise_append.mp h.streams.order).2.2 _ (List.mem_map_of_mem hmem) _ he') (hnot e')
  · obtain ⟨m, hm, hwm⟩ := List.mem_eraseIdx_iff_getElem?.mp he'
    obtain ⟨hi, hgi⟩ := List.getElem?_eq_some_iff.mp hw
    obtain ⟨hm', hgm⟩ := List.getElem?_eq_some_iff.mp hwm
    have horder := List.pairwise_map.mp (List.pairwise_append.mp h.streams.order).1
    rcases Nat.lt_or_gt_of_ne hm with hlt | hgt
    · have := List.pairwise_iff_getElem.mp horder m i hm' hi hlt
      rw [hgi, hgm] at this
      exact this k e' e rfl rfl
    · have := List.pairwise_iff_getElem.mp horder i m hi hm' hgt
      rw [hgi, hgm] at this
      exact absurd this (hnot e')

/-- What the end of a sign-in does to the operation in the slot, and to the user. -/
theorem Covered.onLoginFinished {id : OpId} {op : Operation} {u : UserId} {finished : Bool} {user? : Option User} (h : s.Covered)
    (hwf : s.accounts.Wf) (hslot : s.accounts.slot = some id) (hop : s.accounts.operations.lookup id = some op) (hnone : op.userId = none)
    (hsigned : ∀ v, s.Signed v → finished = true ∧ v = u ∧ (op.preexisting.contains u = false ∨ s.accounts.answered s.initial u = true))
    (hdone : ∀ k e, k + 1 = s.bridge.logins.length → s.Sent (.login k e) → e.outcome? = none) :
    ({ s with accounts := s.accounts.onLoginFinished s.now id op finished u user? } : State).Covered := by
  unfold Accounts.onLoginFinished
  split
  · exact h
  · dsimp only
    split
    next hact =>
      have h₁ : State.Covered { s with accounts := ((s.accounts.modify id fun op =>
          { op with userId := some u, createdByAttempt := finished && !op.preexisting.contains u }).modify id
            fun op => { op with state := .checking }) } := by
        rw [Accounts.modify_modify]
        exact h.signedIn hslot hop hnone (fun _ => ⟨rfl, rfl, rfl, rfl, rfl⟩) hsigned hdone
      refine h₁.serves (.reconcile (hwf.checking hop hact) h₁.checked fun op' hop' => ?_)
      obtain ⟨-, _, -, rfl⟩ | ⟨hne, -⟩ := Accounts.lookup_modify_some.mp hop'
      · rfl
      · exact absurd rfl hne
    next =>
      have h₁ := h.signedIn (f := fun op => { op with userId := some u, createdByAttempt := finished && !op.preexisting.contains u })
        hslot hop hnone (fun _ => ⟨rfl, rfl, rfl, rfl, rfl⟩) hsigned hdone
      refine h₁.serves (.dropRelease fun op' hop' => ?_)
      obtain ⟨-, _, -, rfl⟩ | ⟨hne, -⟩ := Accounts.lookup_modify_some.mp hop'
      · rfl
      · exact absurd rfl hne

theorem Covered.onLoginError {id : OpId} {op : Operation} {code : NativeCode} (h : s.Covered) (hslot : s.accounts.slot = some id)
    (hop : s.accounts.operations.lookup id = some op) (hnone : op.userId = none) (hsigned : ∀ u, ¬s.Signed u)
    (hcode : code.retryable? = none) : ({ s with accounts := s.accounts.onLoginError s.now id op code } : State).Covered := by
  have hunique : ∀ op', s.accounts.operations.lookup id = some op' → op' = op := fun op' hop' => Option.some.inj (hop'.symm.trans hop)
  have hsame : ∀ a : Accounts, ({ s with accounts := a } : State).Covered → (∀ op, a.operations.lookup id = some op → op.userId = none) →
      (∀ op, a.holder = some op → ∃ op', s.accounts.holder = some op' ∧ op'.userId = op.userId) →
      ({ s with accounts := a.release id } : State).Covered := fun a ha huser hholder => by
    refine Covered.release ha (fun u ⟨op, l, hop, hu, hl, hout⟩ => ?_) huser
    obtain ⟨op', hop', hsame⟩ := hholder op hop
    exact hsigned u ⟨op', l, hop', hsame.trans hu, hl, hout⟩
  unfold Accounts.onLoginError
  rw [hcode]
  dsimp only
  split
  next =>
    refine hsame _ (h.serves (.endOp hslot rfl)) (fun op' hop' => ?_) fun op' hop' => ?_
    · obtain ⟨-, op₀, h₀, rfl⟩ | ⟨hne, -⟩ := Accounts.lookup_modify_some.mp hop'
      · exact hunique op₀ h₀ ▸ hnone
      · exact absurd rfl hne
    · obtain ⟨c, hc, hop'⟩ := Accounts.holder_eq_some.mp hop'
      have hc : s.accounts.slot = some c := hc
      obtain ⟨rfl, op₀, h₀, rfl⟩ | ⟨-, hop'⟩ := Accounts.lookup_modify_some.mp hop'
      · exact ⟨op₀, Accounts.holder_eq_some.mpr ⟨_, hc, h₀⟩, rfl⟩
      · exact ⟨op', Accounts.holder_eq_some.mpr ⟨c, hc, hop'⟩, rfl⟩
  next => exact hsame _ h (fun op' hop' => hunique op' hop' ▸ hnone) fun op' hop' => ⟨op', hop', rfl⟩

theorem Covered.deliver {i : Nat} {w : Nat × Event} (h : s.Covered) (hwf : s.accounts.Wf) (ha : s.Attributed cfg)
    (hw : s.waiting[i]? = some w) (hin : s.inTime w = true) (hnew : s.signsInNew w = true) :
    (onEvent { s with waiting := s.waiting.eraseIdx i } n w.2).Covered ∧
      (onEvent { s with waiting := s.waiting.eraseIdx i } n w.2).Recorded := by
  have h₀ : State.Covered { s with waiting := s.waiting.eraseIdx i } :=
    h.fewer ⟨rfl, Nat.le_refl _, List.eraseIdx_sublist _ _, s.bridge.queue, [], by simp, .refl _, by simp⟩ rfl rfl (fun _ hu => hu)
      (Nat.le_refl _)
  suffices hs : ({ s with
      accounts := ({ s with waiting := s.waiting.eraseIdx i } : State).eventAccounts n w.2
      waiting := s.waiting.eraseIdx i } : State).Covered from Covered.both ⟨hs.users, hs.checked, hs.clock, hs.done⟩
  obtain ⟨epoch, e⟩ := w
  cases e with
  | login k e =>
    cases ho : e.outcome? with
    | none => exact h₀.serves (onLoginEvent_serves (s := { s with waiting := s.waiting.eraseIdx i }) hwf h.checked ho)
    | some o =>
      cases hslot : s.accounts.slot with
      | none =>
        have hacc : ({ s with waiting := s.waiting.eraseIdx i } : State).eventAccounts n (.login k e) = s.accounts := by
          show State.onLoginEvent _ n e = _
          unfold State.onLoginEvent
          dsimp only
          rw [hslot]
        rw [hacc]
        exact h₀
      | some id =>
        obtain ⟨op, hop⟩ := hwf.slot id hslot
        have hholder : s.accounts.holder = some op := Accounts.holder_eq_some.mpr ⟨id, hslot, hop⟩
        have hlast := ha.last_of_inTime hw hin hslot
        have hsent : s.Sent (.login k e) := .inr ⟨epoch, List.mem_of_getElem? hw⟩
        have hnone : op.userId = none := by
          by_contra hsome
          have := h.done op hholder (Option.isSome_iff_ne_none.mpr hsome) k e hlast hsent
          simp [ho] at this
        have hdone : ∀ k' e', k' + 1 = s.bridge.logins.length →
            ({ s with waiting := s.waiting.eraseIdx i } : State).Sent (.login k' e') → e'.outcome? = none := fun k' e' hk' he' => by
          obtain rfl : k' = k := by omega
          exact ha.ends_once hw ho he'
        have hsigned : ∀ u, State.Signed { s with waiting := s.waiting.eraseIdx i } u → o = .finished u :=
          fun u ⟨_, l, _, _, hl, hout⟩ => by
            obtain ⟨l', hl', hout'⟩ := ha.streams.ended k e o hsent ho
            have hl : s.bridge.logins.getLast? = some l := hl
            rw [List.getLast?_eq_getElem?, ← hlast, Nat.add_sub_cancel] at hl
            obtain rfl : l = l' := Option.some.inj (hl.symm.trans hl')
            exact Option.some.inj (hout'.symm.trans hout)
        have heq : ({ s with waiting := s.waiting.eraseIdx i } : State).eventAccounts n (.login k e) =
            match e with
            | .error code => s.accounts.onLoginError s.now id op code
            | .finished u => s.accounts.onLoginFinished s.now id op true u (n.getUser id)
            | .alreadyLoggedIn u => s.accounts.onLoginFinished s.now id op false u (n.getUser id)
            | _ => s.accounts := by
          show State.onLoginEvent _ n e = _
          unfold State.onLoginEvent
          dsimp only
          rw [hslot, hholder]
          cases e with
          | needs2fa => cases ho
          | needsSecondPassword => cases ho
          | hv => cases ho
          | error code => rfl
          | finished u => rfl
          | alreadyLoggedIn u => rfl
        rw [heq]
        cases e with
        | needs2fa => cases ho
        | needsSecondPassword => cases ho
        | hv => cases ho
        | error code =>
          have hcode : code.retryable? = none := by
            by_contra hsome
            simp [LoginEvent.outcome?, Option.isSome_iff_ne_none.mpr hsome] at ho
          have hout : o = .error := by simpa [LoginEvent.outcome?, hcode] using ho.symm
          refine h₀.onLoginError hslot hop hnone (fun u hs => ?_) hcode
          exact absurd (hout.symm.trans (hsigned u hs)) (fun h => by cases h)
        | finished u =>
          refine h₀.onLoginFinished hwf hslot hop hnone (fun v hs => ?_) hdone
          have hv : Outcome.finished u = .finished v := (Option.some.inj ho).trans (hsigned v hs)
          refine ⟨rfl, (Outcome.finished.inj hv).symm, ?_⟩
          have hnew : (s.accounts.holder.all fun op => !op.preexisting.contains u || s.accounts.answered s.initial u) = true := hnew
          simpa [hholder] using hnew
        | alreadyLoggedIn u =>
          refine h₀.onLoginFinished hwf hslot hop hnone (fun v hs => ?_) hdone
          exact absurd ((Option.some.inj ho).trans (hsigned v hs)) (fun h => by cases h)
  | userChanged u => exact h₀.serves (.onUserChanged hwf h.checked fun _ hl => list_eq_some hl)
  | streamEnded => exact h₀
  | noKeychain => exact h₀

/-! ## Runs -/

theorem Covered.step {l : Label} (h : s.Covered) (hr : s.Recorded) (hwf : s.Wf) (ha : s.Attributed cfg) (hg : RemovalGuard cfg s l)
    (hstep : ProtonWorker.step cfg s l = some s') : s'.Covered ∧ s'.Recorded := by
  cases l with
  | start id email n => exact Option.some.inj hstep ▸ h.startConnection hr hwf.accounts
  | continueLogin id challenge n => exact Option.some.inj hstep ▸ h.continueConnection hr
  | cancel id => exact Option.some.inj hstep ▸ h.cancelConnection hr hwf.accounts
  | commit id u g previous => exact Option.some.inj hstep ▸ h.commitConnection hr
  | credentials u owner n => exact Option.some.inj hstep ▸ h.credentials hr hwf.accounts hg.2
  | remove u g email n => exact Option.some.inj hstep ▸ h.removeUser hr hwf.accounts hg.2
  | acquire lease =>
    obtain rfl := Option.some.inj hstep
    unfold acquireSendLease
    split
    · exact ⟨⟨h.users, h.checked, h.clock, h.done⟩, ⟨hr.users, hr.active⟩⟩
    · split
      · exact ⟨h, hr⟩
      · split
        · exact ⟨h, hr⟩
        · exact ⟨⟨h.users, h.checked, h.clock, h.done⟩, ⟨hr.users, hr.active⟩⟩
  | release lease =>
    obtain rfl := Option.some.inj hstep
    obtain ⟨cancelled, heq⟩ := @releaseSendLease_eq s lease
    rw [heq]
    exact ⟨⟨h.users, h.checked, h.clock, h.done⟩, ⟨hr.users, hr.active⟩⟩
  | begin id n => exact Option.some.inj hstep ▸ h.snapshotBegin hr hwf.accounts
  | wake i n =>
    obtain ⟨w, -, rfl⟩ := Option.map_eq_some_iff.mp hstep
    exact Covered.drain ⟨h.users, h.checked, h.clock, h.done⟩ ⟨hr.users, hr.active⟩ hwf.accounts
  | endSnapshot id n => exact Option.some.inj hstep ▸ h.snapshotEnd hr hwf.accounts hg.2
  | renew id =>
    obtain rfl := Option.some.inj hstep
    unfold snapshotRenew
    split
    · exact ⟨h, hr⟩
    · split
      · exact ⟨⟨h.users, h.checked, h.clock, h.done⟩, ⟨hr.users, hr.active⟩⟩
      · exact ⟨h, hr⟩
  | tick n => exact Option.some.inj hstep ▸ h.tick hr hwf hg
  | recoverNative n =>
    obtain ⟨-, hstep⟩ := Option.ite_none_right_eq_some.mp hstep
    obtain rfl := Option.some.inj hstep
    exact h.recoverNative hr
  | recovered n =>
    obtain ⟨ok, hok, rfl⟩ := Option.map_eq_some_iff.mp hstep
    exact h.recovered hwf.accounts fun hdone => hg.2 (hdone ▸ hok)
  | boot n => exact Option.some.inj hstep ▸ h.boot hr hwf.accounts hg.2
  | restart sent => exact Option.some.inj hstep ▸ hr.restart hg.2
  | pass seconds =>
    obtain rfl := Option.some.inj hstep
    exact ⟨h.frame rfl (fun _ _ he => he) rfl rfl (fun _ hu => hu) (Nat.le_add_right _ _), ⟨hr.users, hr.active⟩⟩
  | emit k e =>
    obtain ⟨b, hb, rfl⟩ := Option.map_eq_some_iff.mp hstep
    exact h.emit hr ha hb
  | report e =>
    obtain ⟨hcond, hstep⟩ := Option.ite_none_right_eq_some.mp hstep
    obtain rfl := Option.some.inj hstep
    exact h.report hr (by simpa using (Bool.and_eq_true _ _ ▸ hcond).2)
  | loseStream kept =>
    obtain ⟨-, hstep⟩ := Option.ite_none_right_eq_some.mp hstep
    obtain rfl := Option.some.inj hstep
    exact h.endStream hr
  | die kept =>
    obtain ⟨-, hstep⟩ := Option.ite_none_right_eq_some.mp hstep
    obtain rfl := Option.some.inj hstep
    split
    · exact h.endStream hr
    · exact ⟨⟨h.users, h.checked, h.clock, h.done⟩, ⟨hr.users, hr.active⟩⟩
  | gone u =>
    obtain ⟨-, hstep⟩ := Option.ite_none_right_eq_some.mp hstep
    obtain rfl := Option.some.inj hstep
    exact h.gone hr
  | handOver => exact h.handOver hr hstep
  | deliver i n =>
    obtain ⟨w, hw, rfl⟩ := Option.map_eq_some_iff.mp hstep
    have hin : (s.waiting[i]?.all s.inTime) = true := hg.1
    have hnew : (s.waiting[i]?.all s.signsInNew) = true := hg.2
    rw [hw] at hin hnew
    exact h.deliver hwf.accounts ha hw hin hnew

theorem Covered.init (h : ProtonWorker.initial s) : s.Covered ∧ s.Recorded := by
  obtain ⟨ha, -, -, -, -, -, -, -, -, -, -, -, -, -, -, hinitial⟩ := h
  have hnone : s.accounts.holder = none := by simp [ha, Accounts.holder]
  have hmem : ∀ u ∈ s.bridge.users, ∀ a : Accounts, a.answered s.initial u = true := fun u hu a =>
    Accounts.answered_eq_true.mpr (.inl (hinitial ▸ hu))
  refine ⟨⟨fun u hu => .inl (Accounts.kept_of_answered (hmem u hu _)), ?_, ?_, ?_⟩, ⟨fun u hu => .inl (hmem u hu _), ?_⟩⟩
  · intro id op hop
    simp [ha] at hop
  · intro id op hop
    simp [ha] at hop
  · simp [hnone]
  · simp [hnone]

theorem covered_invariant (cfg : Config) :
    (system cfg).Invariant (RemovalGuard cfg) fun s => (s.Wf ∧ s.Attributed cfg) ∧ s.Covered ∧ s.Recorded := by
  refine ⟨fun hi => ⟨(attributed_invariant cfg).init hi, Covered.init hi⟩, fun ⟨⟨hwf, ha⟩, h, hr⟩ hg hstep => ⟨?_, ?_⟩⟩
  · exact (attributed_invariant cfg).step ⟨hwf, ha⟩ hg.1 hstep
  · exact h.step hr hwf ha hg hstep

end State

open State in
/-- In a run under the guard nothing that is linked is being removed, and while the login slot is free and no operation is
marked, each user that Bridge holds was there before the worker, is linked, is being removed, or is the user of a connected
attempt that created it and waits for its commit. -/
theorem users_answered {cfg : Config} {s : State} (hs : (system cfg).ReachesUnder (RemovalGuard cfg) s) :
    (∀ u email g, s.accounts.links.lookup (u, email) = some g → s.accounts.pendingRemovals.lookup u = none) ∧
    (s.accounts.slot = none → s.accounts.reconcilePending = false → ∀ u ∈ s.bridge.users,
      u ∈ s.initial ∨ (∃ email g, s.accounts.links.lookup (u, email) = some g) ∨
        (s.accounts.pendingRemovals.lookup u).isSome = true ∨
          ∃ id op, s.accounts.operations.lookup id = some op ∧ op.state = .connected ∧ op.committed = false ∧
            op.createdByAttempt = true ∧ op.userId = some u) := by
  obtain ⟨⟨hwf, -⟩, h, -⟩ := (covered_invariant cfg).reachesUnder hs
  refine ⟨hwf.accounts.links, fun hslot hmarks u hu => ?_⟩
  have hnone := Accounts.holder_none hslot
  have hans : s.accounts.answered s.initial u = true := by
    rcases h.users u hu with hk | hm | ⟨op, l, hop, -⟩
    · rcases Accounts.kept_eq_true.mp hk with hans | ⟨op, hop, -⟩
      · exact hans
      · simp [hnone] at hop
    · simp [hmarks] at hm
    · simp [hnone] at hop
  rcases Accounts.answered_eq_true.mp hans with hu | hu | hu | ⟨id, op, hop, hclaims⟩
  · exact .inl hu
  · exact .inr (.inl (Accounts.linked_eq_true.mp hu))
  · exact .inr (.inr (.inl hu))
  · obtain ⟨hact | hstate, hcom, hcreated, huser⟩ := Operation.claims_eq_true.mp hclaims
    · -- An attempt under way would hold the slot.
      exact absurd (hslot.symm.trans (hwf.accounts.active hop hact)) (by simp)
    · exact .inr (.inr (.inr ⟨id, op, hop, hstate, hcom, hcreated, huser⟩))

/-- A connected attempt answers for the user it signed in, after another user was there from the start. -/
theorem users_answered_connected : ∃ s, (system {}).ReachesUnder (RemovalGuard {}) s ∧ s.accounts.slot = none ∧
    "u" ∈ s.bridge.users ∧ ∃ id op, s.accounts.operations.lookup id = some op ∧ op.state = .connected ∧ op.committed = false ∧
      op.createdByAttempt = true ∧ op.userId = some "u" := by
  have htrace : ((system {}).exec (RemovalGuard {}) (fresh ["v"]) [.start "a" "a@x" {}, .emit 0 (.finished "u"), .handOver,
      .deliver 0 { getUser := fun _ => some ⟨"u", ["a@x"], true, true⟩ }]).any (fun s =>
        s.accounts.slot.isNone && !s.accounts.reconcilePending && s.bridge.users.contains "u" && !s.initial.contains "u" &&
          s.accounts.links.entries.isEmpty && (s.accounts.pendingRemovals.lookup "u").isNone) = true := by
    decide +kernel
  obtain ⟨s, hs, hp⟩ := TransitionSystem.reaches_of_exec fresh_init htrace
  simp only [Bool.and_eq_true, Bool.not_eq_true', Option.isNone_iff_eq_none, List.contains_iff_mem, List.isEmpty_iff] at hp
  obtain ⟨⟨⟨⟨⟨hslot, hmarks⟩, hu⟩, hinitial⟩, hlinks⟩, hpending⟩ := hp
  refine ⟨s, hs, hslot, hu, ?_⟩
  rcases (users_answered hs).2 hslot hmarks "u" hu with h | ⟨email, g, h⟩ | h | h
  · rw [← List.contains_iff_mem, hinitial] at h
    cases h
  · have := Table.mem_entries.mpr h
    simp [hlinks] at this
  · simp [hpending] at h
  · exact h

/-- A worker that restarts after an attempt was cancelled, and before its login was heard of, forgets the user of a late
sign-in. -/
theorem users_answered_forgotten : ∃ s, (system {}).Reachable s ∧ s.accounts.slot = none ∧ s.accounts.reconcilePending = false ∧
    "u" ∈ s.bridge.users ∧ "u" ∉ s.initial ∧ (∀ email g, s.accounts.links.lookup ("u", email) ≠ some g) ∧
    s.accounts.pendingRemovals.lookup "u" = none ∧ ∀ id op, s.accounts.operations.lookup id = some op → op.userId ≠ some "u" := by
  have htrace : ((system {}).exec TransitionSystem.anyStep (fresh []) [.start "a" "a@x" {}, .cancel "a", .emit 0 (.finished "u"),
      .restart []]).any (fun s => s.accounts.slot.isNone && !s.accounts.reconcilePending && s.bridge.users.contains "u" &&
        s.initial.isEmpty && s.accounts.links.entries.isEmpty && (s.accounts.pendingRemovals.lookup "u").isNone &&
          s.accounts.operations.entries.all fun e => decide (e.2.userId ≠ some "u")) = true := by
    decide +kernel
  obtain ⟨s, hs, hp⟩ := TransitionSystem.reaches_of_exec fresh_init htrace
  simp only [Bool.and_eq_true, Bool.not_eq_true', Option.isNone_iff_eq_none, List.contains_iff_mem, List.isEmpty_iff,
    List.all_eq_true, decide_eq_true_eq] at hp
  obtain ⟨⟨⟨⟨⟨⟨hslot, hmarks⟩, hu⟩, hinitial⟩, hlinks⟩, hpending⟩, hops⟩ := hp
  refine ⟨s, hs, hslot, hmarks, hu, by simp [hinitial], fun email g h => ?_, hpending, fun id op hop => ?_⟩
  · have := Table.mem_entries.mpr h
    simp [hlinks] at this
  · exact hops _ (Table.mem_entries.mpr hop)

end MailExpert.ProtonWorker
