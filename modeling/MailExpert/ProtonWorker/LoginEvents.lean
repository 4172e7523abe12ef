import MailExpert.ProtonWorker.LoginSteps

/-!
# The events of a login

What Bridge's own steps and the delivery of an event do to `Attributed`, and so to every run under `AttributionGuard`: an
event changes the operation whose login it is of, and passes the clean-up of a user on to another attempt at most
(`Inherits`); and of the logins of a Bridge process only the last may still report.
-/

namespace MailExpert.ProtonWorker

namespace Accounts

variable {a b c : Accounts} {now : Nat} {id j : OpId}

/-- The attempt `j` signed in the user that the ended attempt `id` created, and has its clean-up from now on. -/
def Inherits (a b : Accounts) (id j : OpId) : Prop :=
  ∃ op heir u, b.operations.lookup id = some op ∧ op.createdByAttempt = true ∧ op.userId = some u ∧
    a.operations.lookup j = some heir ∧ heir.userId = some u ∧ heir.state = .connected ∧ heir.committed = false ∧
      b.operations.lookup j = some { heir with createdByAttempt := true }

/-- Of the other operations an event of `id` changes those that inherit a clean-up from it. -/
def Touches (a b : Accounts) (id : OpId) : Prop :=
  ∀ j, j ≠ id → b.operations.lookup j = a.operations.lookup j ∨ a.Inherits b id j

theorem Touches.refl (a : Accounts) : a.Touches a id := fun _ _ => .inl rfl

theorem Touches.modify {f : Operation → Operation} : a.Touches (a.modify id f) id := fun j hj =>
  .inl (by rw [lookup_modify, if_neg hj])

theorem lookup_release : (a.release id).operations = a.operations := by
  unfold release
  split <;> rfl

theorem Touches.release (h : a.Touches b id) : a.Touches (b.release id) id := fun j hj => by
  rw [Inherits, lookup_release]
  exact h j hj

/-- Steps that change `id` only, before one that may pass a clean-up on. -/
theorem Touches.after (hsame : ∀ j, j ≠ id → b.operations.lookup j = a.operations.lookup j) (h : b.Touches c id) : a.Touches c id :=
  fun j hj => by
    have := h j hj
    rw [Inherits, hsame j hj] at this
    exact this

/-- A live attempt other than the slot's has been connected. -/
theorem Touches.dropAttemptUser (hact : ∀ j op, j ≠ id → a.operations.lookup j = some op → op.state.active = false) :
    a.Touches (a.dropAttemptUser now id) id := fun j hj => by
  unfold Accounts.dropAttemptUser
  split
  · exact .inl rfl
  next op hop =>
    split
    next u hcreated huser =>
      have hhand : (a.handOver u (some id)).1.operations.lookup j = a.operations.lookup j ∨
          a.Inherits (a.handOver u (some id)).1 id j := by
        cases hlook : a.operations.lookup j with
        | none =>
          refine .inl ?_
          simp [handOver, hlook]
        | some heir =>
          have hj' : (a.handOver u (some id)).1.operations.lookup j =
              some (if isHeir u (some id) j heir then { heir with createdByAttempt := true } else heir) :=
            lookup_handOver_some.mpr ⟨heir, hlook, rfl⟩
          split at hj'
          next hheir =>
            simp only [isHeir, Bool.and_eq_true, Bool.or_eq_true, decide_eq_true_eq, Bool.not_eq_true'] at hheir
            obtain ⟨⟨⟨-, hu⟩, hcom⟩, hstate⟩ := hheir
            have hid : (a.handOver u (some id)).1.operations.lookup id = some op :=
              lookup_handOver_some.mpr ⟨op, hop, by simp [isHeir]⟩
            refine .inr ⟨op, heir, u, hid, hcreated, huser, hlook, hu, ?_, hcom, hj'⟩
            rcases hstate with hstate | hstate
            · simp [hact j heir hj hlook] at hstate
            · exact hstate
          next => exact .inl hj'
      split
      · exact .inl rfl
      · split
        · exact hhand
        · exact hhand
    next => exact .inl rfl

variable (hact : ∀ j op, j ≠ id → a.operations.lookup j = some op → op.state.active = false)

include hact in
theorem Touches.endDropRelease {state : OpState} {code : Option ErrorCode} :
    a.Touches (((a.endOp now id state code).dropAttemptUser now id).release id) id := by
  refine Touches.release (Touches.after (b := a.endOp now id state code) (fun j hj => ?_) (.dropAttemptUser fun j op hj hop => ?_))
  · rw [Accounts.endOp, lookup_modify, if_neg hj]
  · rw [Accounts.endOp, lookup_modify, if_neg hj] at hop
    exact hact j op hj hop

include hact in
theorem Touches.stopAttempt {state : OpState} {code : Option ErrorCode} : a.Touches (a.stopAttempt now id state code) id := by
  unfold Accounts.stopAttempt
  split
  · exact .refl a
  · split
    · exact .endDropRelease hact
    · exact .modify

include hact in
theorem Touches.reconcile {user? : Option User} : a.Touches (a.reconcile now id user?) id := by
  unfold Accounts.reconcile
  split
  · split
    · exact .endDropRelease hact
    · split
      · exact .refl a
      · split
        · exact Touches.release .modify
        · exact .modify
  · exact .refl a

theorem Touches.onLoginError {op : Operation} {code : NativeCode} : a.Touches (a.onLoginError now id op code) id := by
  unfold Accounts.onLoginError
  split
  · split
    · exact .modify
    · exact .refl a
  · refine Touches.release ?_
    split
    · exact .modify
    · exact .refl a

include hact in
theorem Touches.onLoginFinished {op : Operation} {finished : Bool} {u : UserId} {user? : Option User} :
    a.Touches (a.onLoginFinished now id op finished u user?) id := by
  have hmod : ∀ f : Operation → Operation, ∀ j, j ≠ id → (a.modify id f).operations.lookup j = a.operations.lookup j :=
    fun f j hj => by rw [lookup_modify, if_neg hj]
  unfold Accounts.onLoginFinished
  split
  · exact .refl a
  · dsimp only
    split
    · refine Touches.after (fun j hj => ?_) (.reconcile fun j op hj hop => ?_)
      · rw [lookup_modify, if_neg hj, hmod _ j hj]
      · rw [lookup_modify, if_neg hj, hmod _ j hj] at hop
        exact hact j op hj hop
    · refine Touches.release (Touches.after (fun j hj => hmod _ j hj) (.dropAttemptUser fun j op hj hop => ?_))
      rw [hmod _ j hj] at hop
      exact hact j op hj hop

end Accounts

namespace State

variable {cfg : Config} {s s' t : State} {n : Native}

/-! ## What an event does -/

theorem onLoginEvent_touches {id : OpId} {e : LoginEvent} (hwf : s.accounts.Wf) (hslot : s.accounts.slot = some id) :
    s.accounts.Touches (s.onLoginEvent n e) id := by
  have hact : ∀ j op, j ≠ id → s.accounts.operations.lookup j = some op → op.state.active = false := fun j op hj hop => by
    by_contra hact
    exact hj (Option.some.inj ((hwf.active hop (by simpa using hact)).symm.trans hslot))
  unfold State.onLoginEvent
  split
  next id' op hid hholder =>
    obtain rfl : id = id' := Option.some.inj (hslot.symm.trans hid)
    cases e with
    | needs2fa =>
      dsimp only
      split
      · exact .modify
      · exact .refl _
    | needsSecondPassword =>
      dsimp only
      split
      · exact .modify
      · exact .refl _
    | hv =>
      dsimp only
      split
      · exact .stopAttempt hact
      · exact .refl _
    | error code => exact .onLoginError
    | finished u => exact .onLoginFinished hact
    | alreadyLoggedIn u => exact .onLoginFinished hact
  next => exact .refl _

/-- An event that does not end its login leaves the operation in the slot unless it was being checked. -/
theorem onLoginEvent_settles {e : LoginEvent} (hwf : s.accounts.Wf) (he : e.outcome? = none) :
    s.accounts.Settles (s.onLoginEvent n e) := by
  unfold State.onLoginEvent
  split
  next id op hid hholder =>
    obtain ⟨id', hid', hop⟩ := Accounts.holder_eq_some.mp hholder
    obtain rfl : id = id' := Option.some.inj (hid.symm.trans hid')
    cases e with
    | needs2fa =>
      dsimp only
      split
      · exact .inl (.modify fun op _ _ => ⟨rfl, fun h => (by cases h), fun hm => ⟨hm, rfl⟩⟩)
      · exact .inl (.refl _)
    | needsSecondPassword =>
      dsimp only
      split
      · exact .inl (.modify fun op _ _ => ⟨rfl, fun h => (by cases h), fun hm => ⟨hm, rfl⟩⟩)
      · exact .inl (.refl _)
    | hv =>
      dsimp only
      split
      next hact => exact .stopAttempt hwf (by decide) fun op' hop' => Option.some.inj (hop'.symm.trans hop) ▸ hact
      next => exact .inl (.refl _)
    | error code =>
      have hcheck : ∀ st, code.retryable? = some st → st ≠ .checking := by cases code <;> simp [NativeCode.retryable?]
      dsimp only
      unfold Accounts.onLoginError
      split
      next st hcode =>
        split
        · exact .inl (.modify fun op _ _ => ⟨rfl, fun h => absurd h (hcheck st hcode), fun hm => ⟨hm, rfl⟩⟩)
        · exact .inl (.refl _)
      next hcode => simp [LoginEvent.outcome?, hcode] at he
    | finished u => cases he
    | alreadyLoggedIn u => cases he
  next => exact .inl (.refl _)

theorem release_slot_cases {a : Accounts} {id : OpId} : (a.release id).slot = a.slot ∨ (a.release id).slot = none := by
  unfold Accounts.release
  split
  · exact .inr rfl
  · exact .inl rfl

theorem onLoginEvent_slot {e : LoginEvent} (hwf : s.accounts.Wf) :
    (s.onLoginEvent n e).slot = s.accounts.slot ∨ (s.onLoginEvent n e).slot = none := by
  cases he : e.outcome? with
  | none => exact (onLoginEvent_settles hwf he).slot
  | some o =>
    unfold State.onLoginEvent
    split
    next id op hid hholder =>
      obtain ⟨id', hid', hop⟩ := Accounts.holder_eq_some.mp hholder
      obtain rfl : id = id' := Option.some.inj (hid.symm.trans hid')
      have hfinished : ∀ finished u, (s.accounts.onLoginFinished s.now id op finished u (n.getUser id)).slot = s.accounts.slot ∨
          (s.accounts.onLoginFinished s.now id op finished u (n.getUser id)).slot = none := fun finished u => by
        unfold Accounts.onLoginFinished
        split
        · exact .inl rfl
        · dsimp only
          split
          next hact =>
            -- The reconcile that follows at once finds the operation in `checking`.
            refine (Accounts.Settles.reconcile (hwf.checking hop hact) fun op' hop' => ?_).slot
            rw [Accounts.lookup_modify, if_pos rfl] at hop'
            obtain ⟨_, -, rfl⟩ := Option.map_eq_some_iff.mp hop'
            rfl
          next =>
            rcases release_slot_cases with heq | heq
            · exact .inl (heq.trans Accounts.Keeps.dropAttemptUser.slot)
            · exact .inr heq
      cases e with
      | needs2fa => cases he
      | needsSecondPassword => cases he
      | hv => cases he
      | error code =>
        dsimp only
        unfold Accounts.onLoginError
        split
        · split
          · exact .inl rfl
          · exact .inl rfl
        · rcases release_slot_cases with heq | heq
          · refine .inl (heq.trans ?_)
            split <;> rfl
          · exact .inr heq
      | finished u => exact hfinished true u
      | alreadyLoggedIn u => exact hfinished false u
    next => exact .inl rfl

/-! ## Steps of Bridge -/

theorem emit_eq_some {b b' : Bridge} {k : Nat} {e : LoginEvent} (h : b.emit k e = some b') : b.isOpen k = true ∧
    ∃ users, b' = { b with
      users := users
      logins := b.logins.modify k fun l => { l with outcome := e.outcome? }
      queue := if b.stream then b.queue ++ [.login k e] else b.queue } := by
  unfold Bridge.emit at h
  split at h
  next hopen =>
    obtain ⟨users, -, rfl⟩ := Option.map_eq_some_iff.mp h
    exact ⟨hopen, users, rfl⟩
  next => cases h

/-- An open login has sent nothing that ends it. -/
theorem Streams.open_outcome {k : Nat} {e : LoginEvent} (h : s.Streams) (hopen : s.bridge.isOpen k = true)
    (he : s.Sent (.login k e)) : e.outcome? = none := by
  by_contra hsome
  obtain ⟨o, ho⟩ := Option.ne_none_iff_exists'.mp hsome
  obtain ⟨l, hl, hout⟩ := h.ended k e o he ho
  obtain ⟨-, l', hl', -, hnone⟩ := isOpen_eq_true.mp hopen
  obtain rfl : l = l' := Option.some.inj (hl.symm.trans hl')
  simp [hnone] at hout

theorem mem_all_sent {e : Event} : e ∈ s.waiting.map (·.2) ++ s.bridge.queue ↔ s.Sent e := by
  rw [List.mem_append, List.mem_map, Sent, or_comm]
  refine or_congr .rfl ⟨?_, ?_⟩
  · rintro ⟨⟨epoch, e⟩, hmem, rfl⟩
    exact ⟨epoch, hmem⟩
  · rintro ⟨epoch, hmem⟩
    exact ⟨_, hmem, rfl⟩

theorem Attributed.emit {k : Nat} {e : LoginEvent} {b : Bridge} (h : s.Attributed cfg) (hb : s.bridge.emit k e = some b) :
    ({ s with bridge := b } : State).Attributed cfg := by
  obtain ⟨hopen, users, rfl⟩ := emit_eq_some hb
  obtain ⟨hrun, l, hl, hle, hout⟩ := isOpen_eq_true.mp hopen
  have hget : ∀ j, (s.bridge.logins.modify k fun l => { l with outcome := e.outcome? })[j]? =
      if k = j then s.bridge.logins[j]?.map fun l => { l with outcome := e.outcome? } else s.bridge.logins[j]? := fun j => by
    rw [List.getElem?_modify]
    split <;> cases s.bridge.logins[j]? <;> rfl
  have hmem : ∀ {e' : Event}, (e' ∈ if s.bridge.stream then s.bridge.queue ++ [Event.login k e] else s.bridge.queue) →
      e' ∈ s.bridge.queue ∨ e' = .login k e := fun he => by
    split at he
    · rcases List.mem_append.mp he with he | he
      · exact .inl he
      · exact .inr (List.mem_singleton.mp he)
    · exact .inl he
  have hlt : k < s.bridge.logins.length := (List.getElem?_eq_some_iff.mp hl).1
  have hsent : ∀ {j e'}, ({ s with bridge := { s.bridge with
      users := users
      logins := s.bridge.logins.modify k fun l => { l with outcome := e.outcome? }
      queue := if s.bridge.stream then s.bridge.queue ++ [Event.login k e] else s.bridge.queue } } : State).Sent (.login j e') →
      s.Sent (.login j e') ∨ j = k ∧ e' = e := fun he => by
    rcases he with he | he
    · rcases hmem he with he | he
      · exact .inl (.inl he)
      · cases he
        exact .inr ⟨rfl, rfl⟩
    · exact .inl (.inr he)
  obtain ⟨hlast, op, hop, huser, -⟩ := h.live.reports k (.inl hopen)
  constructor
  · constructor
    · intro l' hl'
      obtain ⟨j, hj⟩ := List.mem_iff_getElem?.mp hl'
      rw [hget] at hj
      split at hj
      · obtain ⟨l₀, hl₀, rfl⟩ := Option.map_eq_some_iff.mp hj
        exact h.streams.epochs l₀ (List.mem_of_getElem? hl₀)
      · exact h.streams.epochs l' (List.mem_of_getElem? hj)
    · exact h.streams.waited
    · exact h.streams.ordered
    · intro j e' he
      rw [List.length_modify]
      rcases hsent he with he | ⟨rfl, -⟩
      · exact h.streams.causes j e' he
      · exact hlt
    · intro j e' o he ho
      rw [hget]
      rcases hsent he with he | ⟨rfl, rfl⟩
      · split
        next heq =>
          subst heq
          simp [h.streams.open_outcome hopen he] at ho
        next => exact h.streams.ended j e' o he ho
      · exact ⟨{ l with outcome := e'.outcome? }, by rw [if_pos rfl, hl]; rfl, ho⟩
    · have horder := h.streams.order
      dsimp only
      split
      · rw [← List.append_assoc, List.pairwise_append]
        refine ⟨horder, List.pairwise_singleton _ _, fun e₁ he₁ e₂ he₂ j e₁' e₂' heq₁ heq₂ => ?_⟩
        obtain rfl := List.mem_singleton.mp he₂
        cases heq₂
        exact h.streams.open_outcome hopen (mem_all_sent.mp (heq₁ ▸ he₁))
      · exact horder
  · refine ⟨fun c hc => ?_, fun j hj => ?_, h.live.idle⟩
    · obtain ⟨l', hl', hlop, -⟩ := h.live.last c hc
      refine ⟨{ l' with outcome := e.outcome? }, ?_, hlop, fun op' hop' hsome => ?_⟩
      · rw [List.getLast?_eq_getElem?, List.length_modify, hget, if_pos (by omega), ← List.getLast?_eq_getElem?, hl']
        rfl
      · obtain rfl : op = op' := Option.some.inj (hop.symm.trans hop')
        simp [huser] at hsome
    · rw [List.length_modify]
      refine h.live.reports j ?_
      rcases hj with hj | ⟨e', he'⟩ | hj
      · obtain ⟨-, l', hl', hle', hout'⟩ := isOpen_eq_true.mp hj
        rw [hget] at hl'
        split at hl'
        next heq => exact heq ▸ .inl hopen
        next => exact .inl (isOpen_eq_true.mpr ⟨hrun, l', hl', hle', hout'⟩)
      · rcases hmem he' with he' | he'
        · exact .inr (.inl ⟨e', he'⟩)
        · cases he'
          exact .inl hopen
      · exact .inr (.inr hj)

/-- The pump hands an event over: it waits after those of earlier processes. -/
theorem Attributed.handOver (h : s.Attributed cfg) (ht : s.handOver = some t) : t.Attributed cfg := by
  unfold State.handOver at ht
  split at ht
  · cases ht
  next e rest hq =>
    split at ht
    · cases ht
    next hnone =>
      obtain rfl := Option.some.inj ht
      have hnone : ∀ w ∈ s.waiting, w.1 ≠ s.bridge.epoch := fun w hw heq =>
        hnone (List.any_eq_true.mpr ⟨w, hw, by simp [heq]⟩)
      have hsent : ∀ {e' : Event}, ({ s with
          bridge := { s.bridge with queue := rest }, waiting := s.waiting ++ [(s.bridge.epoch, e)] } : State).Sent e' →
          s.Sent e' := fun he => by
        rcases he with he | ⟨epoch, he⟩
        · exact .inl (hq ▸ List.mem_cons_of_mem _ he)
        · rcases List.mem_append.mp he with he | he
          · exact .inr ⟨epoch, he⟩
          · cases List.mem_singleton.mp he
            exact .inl (hq ▸ List.mem_cons_self)
      constructor
      · constructor
        · exact h.streams.epochs
        · intro w hw
          rcases List.mem_append.mp hw with hw | hw
          · exact h.streams.waited w hw
          · obtain rfl := List.mem_singleton.mp hw
            exact Nat.le_refl _
        · refine List.pairwise_append.mpr ⟨h.streams.ordered, List.pairwise_singleton _ _, fun w hw w' hw' => ?_⟩
          obtain rfl := List.mem_singleton.mp hw'
          exact Nat.lt_of_le_of_ne (h.streams.waited w hw) (hnone w hw)
        · exact fun k e' he => h.streams.causes k e' (hsent he)
        · exact fun k e' o he ho => h.streams.ended k e' o (hsent he) ho
        · have horder := h.streams.order
          rw [hq] at horder
          simpa using horder
      · refine ⟨h.live.last, fun k hk => h.live.reports k ?_, h.live.idle⟩
        rcases hk with hk | ⟨e', he'⟩ | ⟨e', he'⟩
        · exact .inl hk
        · exact .inr (.inl ⟨e', hq ▸ List.mem_cons_of_mem _ he'⟩)
        · rcases List.mem_append.mp he' with he' | he'
          · exact .inr (.inr ⟨e', he'⟩)
          · cases List.mem_singleton.mp he'
            exact .inr (.inl ⟨e', hq ▸ List.mem_cons_self⟩)

theorem Attributed.report {e : Event} (h : s.Attributed cfg) (he : State.reports e = true) :
    ({ s with bridge := { s.bridge with queue := s.bridge.queue ++ [e] } } : State).Attributed cfg := by
  refine h.fewer ⟨rfl, Nat.le_refl _, .refl _, s.bridge.queue, [e], rfl, .refl _, fun k e' hmem => ?_⟩ rfl (fun h => h) rfl
    (Nat.le_refl _) h.live.idle
  cases List.mem_singleton.mp hmem
  cases he

theorem Attributed.endStream {kept : Nat} {running : Bool} (h : s.Attributed cfg)
    (hrun : running = true → s.bridge.running = true) : (s.endStream kept running).Attributed cfg := by
  refine h.fewer ⟨rfl, Nat.le_refl _, .refl _, s.bridge.queue.take kept, [.streamEnded], rfl, List.take_sublist _ _,
    fun k e' hmem => ?_⟩ rfl hrun rfl (Nat.le_refl _) fun hst hr => h.live.idle hst (hrun hr)
  cases List.mem_singleton.mp hmem

theorem Attributed.erase (h : s.Attributed cfg) {i : Nat} :
    ({ s with waiting := s.waiting.eraseIdx i } : State).Attributed cfg :=
  h.fewer ⟨rfl, Nat.le_refl _, List.eraseIdx_sublist _ _, s.bridge.queue, [], by simp, .refl _, by simp⟩ rfl (fun h => h) rfl
    (Nat.le_refl _) h.live.idle

/-- The event's login is the last one, where an operation holds the slot. -/
theorem Attributed.last_of_inTime {i epoch k : Nat} {e : LoginEvent} (h : s.Attributed cfg)
    (hw : s.waiting[i]? = some (epoch, .login k e)) (hin : s.inTime (epoch, .login k e) = true) {id : OpId}
    (hslot : s.accounts.slot = some id) : k + 1 = s.bridge.logins.length := by
  simp only [inTime, Bool.or_eq_true, decide_eq_true_eq, Option.isNone_iff_eq_none] at hin
  rcases hin with (rfl | hnone) | hlast
  · exact (h.live.reports k (.inr (.inr ⟨e, List.mem_of_getElem? hw⟩))).1
  · simp [hslot] at hnone
  · exact hlast

/-- Once the event that ends the last login is delivered, nothing may report. -/
theorem Attributed.silent_of_ended {i epoch k : Nat} {e : LoginEvent} {o : Outcome} (h : s.Attributed cfg)
    (hw : s.waiting[i]? = some (epoch, .login k e)) (ho : e.outcome? = some o) (hlast : k + 1 = s.bridge.logins.length)
    (j : Nat) : ¬({ s with waiting := s.waiting.eraseIdx i } : State).Reports j := fun hj => by
  have hmem := List.mem_of_getElem? hw
  have hsent : s.Sent (.login k e) := .inr ⟨epoch, hmem⟩
  have hlater : ∀ e', Follows (.login k e) (.login k e') → False := fun e' hf => by simp [hf k e e' rfl rfl] at ho
  obtain rfl : j = k := by
    have := ((h.erase (i := i)).live.reports j hj).1
    have : j + 1 = s.bridge.logins.length := this
    omega
  rcases hj with hj | ⟨e', he'⟩ | ⟨e', he'⟩
  · simp [h.streams.open_outcome hj hsent] at ho
  · exact hlater e' ((List.pairwise_append.mp h.streams.order).2.2 _ (List.mem_map_of_mem hmem) _ he')
  · obtain ⟨m, hm, hwm⟩ := List.mem_eraseIdx_iff_getElem?.mp he'
    have hwm : s.waiting[m]? = some (s.bridge.epoch, .login j e') := hwm
    obtain ⟨hi, hgi⟩ := List.getElem?_eq_some_iff.mp hw
    obtain ⟨hm', hgm⟩ := List.getElem?_eq_some_iff.mp hwm
    rcases Nat.lt_or_gt_of_ne hm with hlt | hgt
    · have := List.pairwise_iff_getElem.mp h.streams.ordered m i hm' hi hlt
      rw [hgi, hgm] at this
      have := h.streams.waited _ hmem
      omega
    · have horder := List.pairwise_map.mp (List.pairwise_append.mp h.streams.order).1
      have := List.pairwise_iff_getElem.mp horder i m hi hm' hgt
      rw [hgi, hgm] at this
      exact hlater e' this

theorem Attributed.deliver {i : Nat} {w : Nat × Event} (h : s.Attributed cfg) (hwf : s.accounts.Wf) (hw : s.waiting[i]? = some w)
    (hin : s.inTime w = true) : (onEvent { s with waiting := s.waiting.eraseIdx i } n w.2).Attributed cfg := by
  obtain ⟨epoch, e⟩ := w
  have h₀ := h.erase (i := i)
  suffices hs : ({ s with
      accounts := ({ s with waiting := s.waiting.eraseIdx i } : State).eventAccounts n e
      waiting := s.waiting.eraseIdx i } : State).Attributed cfg from ⟨{ hs.streams with }, { hs.live with }⟩
  cases e with
  | login k e =>
    cases ho : e.outcome? with
    | none => exact h₀.settles (onLoginEvent_settles (s := { s with waiting := s.waiting.eraseIdx i }) hwf ho)
    | some o =>
      have hslot := onLoginEvent_slot (s := { s with waiting := s.waiting.eraseIdx i }) (n := n) (e := e) hwf
      cases hid : s.accounts.slot with
      | none =>
        have hacc : ({ s with waiting := s.waiting.eraseIdx i } : State).onLoginEvent n e = s.accounts := by
          unfold State.onLoginEvent
          dsimp only
          rw [hid]
        have : ({ s with waiting := s.waiting.eraseIdx i } : State).eventAccounts n (.login k e) = s.accounts := hacc
        rw [this]
        exact h₀
      | some id =>
        have hlast := h.last_of_inTime hw hin hid
        have hsilent := h.silent_of_ended hw ho hlast
        refine ⟨{ h₀.streams with }, fun c hc => ?_, fun j hj => absurd hj (hsilent j), fun hst hrun => ?_⟩
        · have hc' : s.accounts.slot = some c := by
            rcases hslot with heq | heq
            · exact heq.symm.trans hc
            · exact absurd (heq.symm.trans hc) (by simp)
          obtain ⟨l, hl, hlop, -⟩ := h.live.last c hc'
          obtain ⟨l', hl', hout⟩ := h.streams.ended k e o (.inr ⟨epoch, List.mem_of_getElem? hw⟩) ho
          have : l = l' := Option.some.inj (by
            rw [← hl, List.getLast?_eq_getElem?, ← hl', ← hlast, Nat.add_sub_cancel])
          subst this
          exact ⟨l, hl, hlop, fun _ _ _ => by simp [hout]⟩
        · rcases h.live.idle hst hrun with hnone | hrec
          · simp [hid] at hnone
          · exact .inr hrec
  | userChanged u => exact h₀.settles (.onUserChanged hwf)
  | streamEnded => exact h₀
  | noKeychain => exact h₀

/-! ## Runs -/

theorem Attributed.step {l : Label} (h : s.Attributed cfg) (hwf : s.Wf) (hg : AttributionGuard s l)
    (hstep : ProtonWorker.step cfg s l = some s') : s'.Attributed cfg := by
  cases l with
  | start id email n => exact Option.some.inj hstep ▸ h.startConnection hwf.accounts
  | continueLogin id challenge n => exact Option.some.inj hstep ▸ h.continueConnection hwf.accounts
  | cancel id => exact Option.some.inj hstep ▸ h.cancelConnection hwf.accounts
  | commit id u g previous => exact Option.some.inj hstep ▸ h.commitConnection hwf.accounts
  | credentials u owner n => exact Option.some.inj hstep ▸ h.credentials hwf.accounts hg
  | remove u g email n => exact Option.some.inj hstep ▸ h.removeUser hwf.accounts hg
  | acquire lease =>
    obtain rfl := Option.some.inj hstep
    unfold acquireSendLease
    split
    · exact ⟨{ h.streams with }, { h.live with }⟩
    · split
      · exact h
      · split
        · exact h
        · exact ⟨{ h.streams with }, { h.live with }⟩
  | release lease =>
    obtain rfl := Option.some.inj hstep
    obtain ⟨cancelled, heq⟩ := @releaseSendLease_eq s lease
    rw [heq]
    exact ⟨{ h.streams with }, { h.live with }⟩
  | begin id n => exact Option.some.inj hstep ▸ h.snapshotBegin hwf
  | wake i n =>
    obtain ⟨w, -, rfl⟩ := Option.map_eq_some_iff.mp hstep
    exact Attributed.drain ⟨{ h.streams with }, { h.live with }⟩ ⟨hwf.accounts, hwf.journal, hwf.recovery⟩
  | endSnapshot id n => exact Option.some.inj hstep ▸ h.snapshotEnd hwf.accounts hg
  | renew id =>
    obtain rfl := Option.some.inj hstep
    unfold snapshotRenew
    split
    · exact h
    · split
      · exact ⟨{ h.streams with }, { h.live with }⟩
      · exact h
  | tick n => exact Option.some.inj hstep ▸ h.tick hwf hg
  | recoverNative n =>
    obtain ⟨-, hstep⟩ := Option.ite_none_right_eq_some.mp hstep
    obtain rfl := Option.some.inj hstep
    exact h.recoverNative
  | recovered n =>
    obtain ⟨ok, hok, rfl⟩ := Option.map_eq_some_iff.mp hstep
    exact h.recovered hwf.accounts (fun hfail => hg.1 (hfail ▸ hok)) fun hdone => hg.2 (hdone ▸ hok)
  | boot n => exact Option.some.inj hstep ▸ h.boot hwf.accounts hg
  | restart sent => exact Option.some.inj hstep ▸ h.restart
  | pass seconds =>
    obtain rfl := Option.some.inj hstep
    exact h.fewer (.of_eq rfl (Nat.le_refl _) rfl (.refl _)) rfl (fun h => h) rfl (Nat.le_add_right _ _) h.live.idle
  | emit k e =>
    obtain ⟨b, hb, rfl⟩ := Option.map_eq_some_iff.mp hstep
    exact h.emit hb
  | report e =>
    obtain ⟨hcond, hstep⟩ := Option.ite_none_right_eq_some.mp hstep
    obtain rfl := Option.some.inj hstep
    exact h.report (by simpa using (Bool.and_eq_true _ _ ▸ hcond).2)
  | loseStream kept =>
    obtain ⟨-, hstep⟩ := Option.ite_none_right_eq_some.mp hstep
    obtain rfl := Option.some.inj hstep
    exact h.endStream fun h => h
  | die kept =>
    obtain ⟨-, hstep⟩ := Option.ite_none_right_eq_some.mp hstep
    obtain rfl := Option.some.inj hstep
    split
    · exact h.endStream fun h => by cases h
    · exact h.fewer (.of_eq rfl (Nat.le_refl _) rfl (.refl _)) rfl (fun h => by cases h) rfl (Nat.le_refl _)
        fun _ hrun => by cases hrun
  | gone u =>
    obtain ⟨-, hstep⟩ := Option.ite_none_right_eq_some.mp hstep
    obtain rfl := Option.some.inj hstep
    have h' := h.keeps (a := { s.accounts with asked := s.accounts.asked.filter (· ≠ u) }) (.of_eq rfl rfl)
    exact ⟨{ h'.streams with }, { h'.live with }⟩
  | handOver => exact h.handOver hstep
  | deliver i n =>
    obtain ⟨w, hw, rfl⟩ := Option.map_eq_some_iff.mp hstep
    refine h.deliver hwf.accounts hw ?_
    have hg : (s.waiting[i]?.all s.inTime) = true := hg
    rw [hw] at hg
    exact hg

theorem Attributed.init (h : ProtonWorker.initial s) : s.Attributed cfg := by
  obtain ⟨ha, -, -, -, -, -, -, -, -, -, hrun, -, hlogins, hqueue, hwaiting, -⟩ := h
  refine ⟨⟨?_, ?_, ?_, ?_, ?_, ?_⟩, ?_, ?_, ?_⟩
  · simp [hlogins]
  · simp [hwaiting]
  · simp [hwaiting]
  · simp [Sent, hqueue, hwaiting]
  · simp [Sent, hqueue, hwaiting]
  · simp [hqueue, hwaiting]
  · intro id hid
    simp [ha] at hid
  · intro k hk
    simp [Reports, Bridge.isOpen, hqueue, hwaiting, hrun] at hk
  · intro _ hr
    simp [hrun] at hr

theorem attributed_invariant (cfg : Config) : (system cfg).Invariant AttributionGuard fun s => s.Wf ∧ s.Attributed cfg :=
  (wf_invariant cfg).strengthen (fun _ => Attributed.init) fun _ _ _ hwf h hg hstep => h.step hwf hg hstep

end State

/-- Login `k` is the latest one that was sent for the attempt. -/
def Bridge.sentFor (b : Bridge) (k : Nat) (id : OpId) : Bool :=
  b.logins[k]?.any (·.op = id) && (b.logins.drop (k + 1)).all (·.op ≠ id)

open State in
/-- In a run under the guard a delivered login event changes the operation that its login was sent for, and gives another one
the clean-up of a user at most; and only the last login sent may still report to the Bridge process in place. -/
theorem login_events_attributed {cfg : Config} {s : State} (hs : (system cfg).ReachesUnder AttributionGuard s) :
    (∀ i n epoch k e s', s.waiting[i]? = some (epoch, .login k e) → AttributionGuard s (.deliver i n) →
      step cfg s (.deliver i n) = some s' → ∀ j, s.bridge.sentFor k j = false →
        s'.accounts.operations.lookup j = s.accounts.operations.lookup j ∨
          ∃ id, s.bridge.sentFor k id = true ∧ s.accounts.Inherits s'.accounts id j) ∧
    ∀ k, s.Reports k → k + 1 = s.bridge.logins.length := by
  obtain ⟨hwf, h⟩ := (attributed_invariant cfg).reachesUnder hs
  refine ⟨fun i n epoch k e s' hw hg hstep j hj => ?_, fun k hk => (h.live.reports k hk).1⟩
  obtain ⟨w, hw', rfl⟩ := Option.map_eq_some_iff.mp hstep
  obtain rfl := Option.some.inj (hw.symm.trans hw')
  have hin : s.inTime (epoch, .login k e) = true := by
    have hg : (s.waiting[i]?.all s.inTime) = true := hg
    rw [hw] at hg
    exact hg
  cases hid : s.accounts.slot with
  | none =>
    refine .inl ?_
    show (State.onLoginEvent { s with waiting := s.waiting.eraseIdx i } n e).operations.lookup j = _
    unfold State.onLoginEvent
    dsimp only
    rw [hid]
  | some id =>
    have hlast := h.last_of_inTime hw hin hid
    obtain ⟨l, hl, hlop, -⟩ := h.live.last id hid
    have hsent : s.bridge.sentFor k id = true := by
      rw [List.getLast?_eq_getElem?, ← hlast, Nat.add_sub_cancel] at hl
      rw [Bridge.sentFor, hl, List.drop_of_length_le (Nat.le_of_eq hlast.symm)]
      simp [hlop]
    have hne : j ≠ id := fun heq => by simp [heq, hsent] at hj
    rcases onLoginEvent_touches (s := { s with waiting := s.waiting.eraseIdx i }) (n := n) (e := e) hwf.accounts hid j hne with
      heq | hinherits
    · exact .inl heq
    · exact .inr ⟨id, hsent, hinherits⟩

/-- A challenge of the attempt in the slot. -/
theorem login_events_attributed_challenge : ∃ s s', (system {}).ReachesUnder AttributionGuard s ∧
    step {} s (.deliver 0 {}) = some s' ∧ (s'.accounts.operations.lookup "a").any (·.state = .needs2fa) = true ∧
    s'.accounts.operations.lookup "b" = s.accounts.operations.lookup "b" ∧ ∀ k, s.Reports k → k + 1 = s.bridge.logins.length := by
  have htrace : ((system {}).exec AttributionGuard (fresh []) [.start "b" "b@x" {}, .emit 0 (.error .badPassword), .handOver,
      .deliver 0 {}, .start "a" "a@x" {}, .emit 1 .needs2fa, .handOver]).any (fun s =>
        decide (s.waiting[0]? = some (1, .login 1 .needs2fa)) && decide (AttributionGuard s (.deliver 0 {})) &&
          !s.bridge.sentFor 1 "b" && (s.accounts.operations.lookup "b").any (!·.createdByAttempt) &&
          (step {} s (.deliver 0 {})).any fun s' => (s'.accounts.operations.lookup "a").any (·.state = .needs2fa) &&
            (s'.accounts.operations.lookup "b").any (!·.createdByAttempt)) = true := by
    decide +kernel
  obtain ⟨s, hs, hp⟩ := TransitionSystem.reaches_of_exec fresh_init htrace
  simp only [Bool.and_eq_true, decide_eq_true_eq, Bool.not_eq_true'] at hp
  obtain ⟨⟨⟨⟨hw, hg⟩, hb⟩, -⟩, hstep⟩ := hp
  obtain ⟨s', hs', hstate⟩ := (Option.any_eq_true _ _).mp hstep
  simp only [Bool.and_eq_true] at hstate
  obtain ⟨hevent, hlast⟩ := login_events_attributed hs
  refine ⟨s, s', hs, hs', hstate.1, ?_, hlast⟩
  rcases hevent 0 {} 1 1 .needs2fa s' hw hg hs' "b" hb with heq | ⟨id, -, op, heir, u, -, -, -, -, -, -, -, hlookup⟩
  · exact heq
  · simp [hlookup] at hstate

/-- A late sign-in of an attempt that was given up leaves the user to an attempt that had signed it in before Bridge removed it;
and an error of a login of an earlier Bridge process fails the attempt that has the slot when it gets the lock. -/
theorem login_events_attributed_others :
    (∃ s s' n, (system {}).Reachable s ∧ s.waiting[0]? = some (1, .login 2 (.finished "u")) ∧
      step {} s (.deliver 0 n) = some s' ∧ s.bridge.sentFor 2 "b" = false ∧
      (s.accounts.operations.lookup "b").any (!·.createdByAttempt) = true ∧
      (s'.accounts.operations.lookup "b").any (·.createdByAttempt) = true) ∧
    ∃ s s' n, (system {}).Reachable s ∧ s.waiting[0]? = some (1, .login 0 (.error .badPassword)) ∧
      step {} s (.deliver 0 n) = some s' ∧ s.bridge.sentFor 0 "b" = false ∧
      (s.accounts.operations.lookup "b").any (·.state = .authenticating) = true ∧
      (s'.accounts.operations.lookup "b").any (·.state = .failed) = true := by
  constructor
  · have htrace : ((system {}).exec TransitionSystem.anyStep (fresh []) [.start "l" "l@x" {}, .emit 0 (.finished "u"), .handOver,
        .deliver 0 { getUser := fun _ => some ⟨"u", ["l@x"], true, true⟩ }, .commit "l" "u" "g" none, .remove "u" "g" "l@x" {},
        .start "b" "b@x" {}, .emit 1 (.alreadyLoggedIn "u"), .handOver,
        .deliver 0 { getUser := fun _ => some ⟨"u", ["b@x"], true, true⟩ }, .gone "u", .start "a" "a@x" {}, .cancel "a",
        .emit 2 (.finished "u"), .handOver]).any (fun s => decide (s.waiting[0]? = some (1, .login 2 (.finished "u"))) &&
          !s.bridge.sentFor 2 "b" && (s.accounts.operations.lookup "b").any (!·.createdByAttempt) &&
          (step {} s (.deliver 0 {})).any fun s' => (s'.accounts.operations.lookup "b").any (·.createdByAttempt)) = true := by
      decide +kernel
    obtain ⟨s, hs, hp⟩ := TransitionSystem.reaches_of_exec fresh_init htrace
    simp only [Bool.and_eq_true, decide_eq_true_eq, Bool.not_eq_true'] at hp
    obtain ⟨⟨⟨hw, hb⟩, hop⟩, hstep⟩ := hp
    obtain ⟨s', hs', hop'⟩ := (Option.any_eq_true _ _).mp hstep
    exact ⟨s, s', {}, hs, hw, hs', hb, hop, hop'⟩
  · have htrace : ((system {}).exec TransitionSystem.anyStep (fresh []) [.start "a" "a@x" {}, .emit 0 (.error .badPassword),
        .handOver, .cancel "a", .die 0, .tick {}, .recoverNative {}, .recovered {}, .start "b" "b@x" {}]).any (fun s =>
          decide (s.waiting[0]? = some (1, .login 0 (.error .badPassword))) && !s.bridge.sentFor 0 "b" &&
          (s.accounts.operations.lookup "b").any (·.state = .authenticating) &&
          (step {} s (.deliver 0 {})).any fun s' => (s'.accounts.operations.lookup "b").any (·.state = .failed)) = true := by
      decide +kernel
    obtain ⟨s, hs, hp⟩ := TransitionSystem.reaches_of_exec fresh_init htrace
    simp only [Bool.and_eq_true, decide_eq_true_eq, Bool.not_eq_true'] at hp
    obtain ⟨⟨⟨hw, hb⟩, hop⟩, hstep⟩ := hp
    obtain ⟨s', hs', hop'⟩ := (Option.any_eq_true _ _).mp hstep
    exact ⟨s, s', {}, hs, hw, hs', hb, hop, hop'⟩

end MailExpert.ProtonWorker
