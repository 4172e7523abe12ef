import MailExpert.ProtonWorker.Controller

/-!
# What every method keeps of the accounts

Whatever Bridge answers, an operation under way holds the login slot, only the slot's operation or one left by an earlier
process is marked for reconcile, a committed operation is connected, and a linked user is never being removed
(`Accounts.Wf`). One lemma for each method; `wf_reachable` is about every run.
-/

namespace MailExpert.ProtonWorker

theorem OpState.not_active {st : OpState} (h : st.terminal = true) : st.active = false := by cases st <;> simp_all [terminal, active]

theorem OpState.terminal_of_not_active {st : OpState} (h : st.active = false) : st.terminal = true := by
  cases st <;> simp_all [terminal, active]

namespace Accounts

variable {a b : Accounts} {now : Nat} {id k : OpId} {op : Operation} {u v : UserId}

theorem lookup_modify {f : Operation → Operation} : (a.modify id f).operations.lookup k =
    if k = id then (a.operations.lookup id).map f else a.operations.lookup k := Table.lookup_modify

theorem lookup_modify_some {f : Operation → Operation} : (a.modify id f).operations.lookup k = some op ↔
    (k = id ∧ ∃ op₀, a.operations.lookup id = some op₀ ∧ f op₀ = op) ∨ (k ≠ id ∧ a.operations.lookup k = some op) := by
  rw [lookup_modify]
  split
  · next h => simp [h]
  · next h => simp [h]

theorem modify_eq_self {f : Operation → Operation} (h : ∀ op, a.operations.lookup id = some op → f op = op) :
    a.modify id f = a := by
  have ht : a.operations.modify id f = a.operations := by
    refine AList.ext ?_
    show a.operations.entries.map _ = a.operations.entries
    refine (List.map_congr_left (g := fun e => e) ?_).trans (List.map_id' _)
    rintro ⟨k, op⟩ hmem
    by_cases hk : k = id
    · subst hk
      simp [h op (Table.mem_entries.mp hmem)]
    · simp [hk]
  unfold modify
  rw [ht]

theorem lookup_handOver_some {ended : Option OpId} : (a.handOver u ended).1.operations.lookup k = some op ↔
    ∃ op₀, a.operations.lookup k = some op₀ ∧
      op = if isHeir u ended k op₀ then { op₀ with createdByAttempt := true } else op₀ := by
  simp only [handOver, Table.lookup_update, Option.map_eq_some_iff]
  exact ⟨fun ⟨op₀, h, heq⟩ => ⟨op₀, h, heq.symm⟩, fun ⟨op₀, h, heq⟩ => ⟨op₀, h, heq.symm⟩⟩

/-- The rows that differ in nothing but `createdByAttempt`. -/
theorem lookup_handOver {ended : Option OpId} (h : (a.handOver u ended).1.operations.lookup k = some op) :
    ∃ op₀, a.operations.lookup k = some op₀ ∧ op = { op₀ with createdByAttempt := op.createdByAttempt } := by
  obtain ⟨op₀, h₀, rfl⟩ := lookup_handOver_some.mp h
  refine ⟨op₀, h₀, ?_⟩
  split <;> rfl

theorem linked_eq_true : a.linked u = true ↔ ∃ email g, a.links.lookup (u, email) = some g := by
  simp only [linked, List.any_eq_true, beq_iff_eq]
  constructor
  · rintro ⟨⟨⟨v, email⟩, g⟩, hmem, rfl⟩
    exact ⟨email, g, Table.mem_entries.mp hmem⟩
  · rintro ⟨email, g, h⟩
    exact ⟨_, Table.mem_entries.mpr h, rfl⟩

theorem reconcilePending_eq_true : a.reconcilePending = true ↔ ∃ id op, a.operations.lookup id = some op ∧ op.reconcile = true := by
  simp only [reconcilePending, List.any_eq_true]
  constructor
  · rintro ⟨⟨id, op⟩, hmem, h⟩
    exact ⟨id, op, Table.mem_entries.mp hmem, h⟩
  · rintro ⟨id, op, hop, h⟩
    exact ⟨_, Table.mem_entries.mpr hop, h⟩

theorem beginRemoval_lookup {reason : Reason} :
    ((a.beginRemoval now u reason).pendingRemovals.lookup v).isSome = (decide (v = u) || (a.pendingRemovals.lookup v).isSome) := by
  simp only [beginRemoval, setRemoval, Table.lookup_insert']
  split
  · next h => simp [h]
  · next h => simp [h]

/-! ## Well-formed accounts -/

/-- What the slot, the marks and the links ask of an operation. -/
structure Fits (a : Accounts) (id : OpId) (op : Operation) : Prop where
  slot : a.slot = some id → op.state ≠ .connected
  active : op.state.active = true → a.slot = some id
  marked : op.reconcile = true → op.state.terminal = true ∧ ∀ c, a.slot = some c → c = id
  committed : op.committed = true → op.state = .connected

structure Wf (a : Accounts) : Prop where
  slot : ∀ id, a.slot = some id → ∃ op, a.operations.lookup id = some op
  rows : ∀ id op, a.operations.lookup id = some op → a.Fits id op
  links : ∀ u email g, a.links.lookup (u, email) = some g → a.pendingRemovals.lookup u = none

namespace Wf

theorem active (h : a.Wf) (hop : a.operations.lookup id = some op) (hact : op.state.active = true) : a.slot = some id :=
  (h.rows id op hop).active hact

theorem marked (h : a.Wf) (hop : a.operations.lookup id = some op) (hrec : op.reconcile = true) :
    op.state.terminal = true ∧ ∀ c, a.slot = some c → c = id :=
  (h.rows id op hop).marked hrec

theorem committed (h : a.Wf) (hop : a.operations.lookup id = some op) (hc : op.committed = true) : op.state = .connected :=
  (h.rows id op hop).committed hc

theorem not_committed (h : a.Wf) (hop : a.operations.lookup id = some op) (hstate : op.state ≠ .connected) :
    op.committed = false := by
  by_contra hc
  exact hstate (h.committed hop (by simpa using hc))

theorem modify {f : Operation → Operation} (h : a.Wf) (hf : ∀ op, a.operations.lookup id = some op → a.Fits id (f op)) :
    (a.modify id f).Wf where
  slot c hc := by
    obtain ⟨op, hop⟩ := h.slot c hc
    by_cases hid : c = id
    · exact ⟨f op, lookup_modify_some.mpr (.inl ⟨hid, op, hid ▸ hop, rfl⟩)⟩
    · exact ⟨op, lookup_modify_some.mpr (.inr ⟨hid, hop⟩)⟩
  rows k op hop := by
    obtain ⟨rfl, op₀, h₀, rfl⟩ | ⟨-, hop⟩ := lookup_modify_some.mp hop
    · exact { hf op₀ h₀ with }
    · exact { h.rows k op hop with }
  links := h.links

/-- A change of what the slot, the marks and the links do not ask for. -/
theorem modify_same {f : Operation → Operation} (h : a.Wf)
    (hf : ∀ op, (f op).state = op.state ∧ (f op).reconcile = op.reconcile ∧ (f op).committed = op.committed) :
    (a.modify id f).Wf := by
  refine h.modify fun op hop => ?_
  obtain ⟨hstate, hrec, hcom⟩ := hf op
  have hfit := h.rows id op hop
  exact ⟨by rw [hstate]; exact hfit.slot, by rw [hstate]; exact hfit.active, by rw [hstate, hrec]; exact hfit.marked,
    by rw [hstate, hcom]; exact hfit.committed⟩

theorem endOp {state : OpState} {code : Option ErrorCode} (h : a.Wf)
    (hcom : ∀ op, a.operations.lookup id = some op → op.committed = false)
    (hstate : state.terminal = true ∧ state ≠ .connected) : (a.endOp now id state code).Wf := by
  refine h.modify fun op hop => ⟨fun _ => hstate.2, fun hact => ?_, fun hrec => ⟨hstate.1, (h.marked hop hrec).2⟩, fun hc => ?_⟩
  · simp [OpState.not_active hstate.1] at hact
  · simp [hcom op hop] at hc

theorem freeSlot (h : a.Wf) (hid : ∀ id op, a.slot = some id → a.operations.lookup id = some op → op.state.active = false) :
    Wf { a with slot := none } where
  slot c hc := by cases hc
  rows k op hop :=
    ⟨(fun hs => by cases hs), fun hact => by simp [hid k op (h.active hop hact) hop] at hact,
      fun hrec => ⟨(h.marked hop hrec).1, (fun c hc => by cases hc)⟩, h.committed hop⟩
  links := h.links

theorem release (h : a.Wf) (hid : ∀ op, a.operations.lookup id = some op → op.state.active = false) : (a.release id).Wf := by
  unfold Accounts.release
  split
  · next hslot =>
    refine h.freeSlot fun k op hk hop => hid op ?_
    obtain rfl : id = k := Option.some.inj (hslot.symm.trans hk)
    exact hop
  · exact h

theorem handOver {ended : Option OpId} (h : a.Wf) : (a.handOver u ended).1.Wf where
  slot c hc := by
    obtain ⟨op, hop⟩ := h.slot c hc
    exact ⟨_, lookup_handOver_some.mpr ⟨op, hop, rfl⟩⟩
  rows k op hop := by
    obtain ⟨op₀, h₀, heq⟩ := lookup_handOver hop
    have hfit := h.rows k op₀ h₀
    rw [heq]
    exact ⟨hfit.slot, hfit.active, hfit.marked, hfit.committed⟩
  links := h.links

theorem not_committed_of_active (h : a.Wf) (hop : a.operations.lookup id = some op) (hact : op.state.active = true) :
    op.committed = false :=
  h.not_committed hop fun hc => by simp [hc, OpState.active] at hact

theorem not_marked_of_active (h : a.Wf) (hop : a.operations.lookup id = some op) (hact : op.state.active = true) :
    op.reconcile = false := by
  by_contra hrec
  have hterm := (h.marked hop (by simpa using hrec)).1
  simp [OpState.not_active hterm] at hact

/-- Only removals of users that no link names are added. -/
theorem removals (h : a.Wf) {pending : Table UserId Removal} {asked : List UserId}
    (hp : ∀ v, (pending.lookup v).isSome → a.linked v = false ∨ (a.pendingRemovals.lookup v).isSome) :
    Wf { a with pendingRemovals := pending, asked := asked } where
  slot := h.slot
  rows k op hop := { h.rows k op hop with }
  links v email g hv := by
    by_contra hsome
    rcases hp v (Option.isSome_iff_ne_none.mpr hsome) with hn | hpend
    · exact Bool.eq_false_iff.mp hn (linked_eq_true.mpr ⟨email, g, hv⟩)
    · simp [h.links v email g hv] at hpend

theorem beginRemoval {reason : Reason} (h : a.Wf) (hu : a.linked u = false ∨ (a.pendingRemovals.lookup u).isSome) :
    (a.beginRemoval now u reason).Wf := by
  refine h.removals fun v hv => ?_
  have hv : ((a.beginRemoval now u reason).pendingRemovals.lookup v).isSome = true := hv
  rw [beginRemoval_lookup, Bool.or_eq_true, decide_eq_true_eq] at hv
  rcases hv with rfl | hv
  · exact hu
  · exact .inr hv

theorem eraseRemoval (h : a.Wf) : Wf { a with pendingRemovals := a.pendingRemovals.erase u } := by
  refine @removals _ h _ a.asked fun v hv => .inr ?_
  rw [Table.lookup_erase'] at hv
  split at hv
  · simp at hv
  · exact hv

theorem setRemoval {item : Removal} (h : a.Wf) (hu : (a.pendingRemovals.lookup u).isSome) : (a.setRemoval u item).Wf := by
  refine @removals _ h _ a.asked fun v hv => .inr ?_
  rw [Table.lookup_insert'] at hv
  split at hv
  · next heq => exact heq ▸ hu
  · exact hv

theorem dropAttemptUser (h : a.Wf) : (a.dropAttemptUser now id).Wf := by
  unfold Accounts.dropAttemptUser
  split
  · exact h
  · split
    · split
      · exact h
      · next hlinked =>
        split
        · exact h.handOver
        · exact h.handOver.beginRemoval (.inl (Bool.eq_false_iff.mpr hlinked))
    · exact h

end Wf

@[simp] theorem dropAttemptUser_slot : (a.dropAttemptUser now id).slot = a.slot := by
  unfold dropAttemptUser
  split
  · rfl
  · split
    · split
      · rfl
      · split <;> rfl
    · rfl

theorem lookup_dropAttemptUser (h : (a.dropAttemptUser now id).operations.lookup k = some op) :
    ∃ op₀, a.operations.lookup k = some op₀ ∧ op = { op₀ with createdByAttempt := op.createdByAttempt } := by
  unfold dropAttemptUser at h
  split at h
  · exact ⟨op, h, rfl⟩
  · split at h
    · split at h
      · exact ⟨op, h, rfl⟩
      · split at h
        · exact lookup_handOver h
        · exact lookup_handOver h
    · exact ⟨op, h, rfl⟩

theorem lookup_endOp {state : OpState} {code : Option ErrorCode}
    (h : (a.endOp now id state code).operations.lookup id = some op) : op.state = state := by
  obtain ⟨-, op₀, -, rfl⟩ | ⟨hne, -⟩ := lookup_modify_some.mp h
  · rfl
  · exact absurd rfl hne

theorem release_slot {c : OpId} (h : (a.release id).slot = some c) : a.slot = some c := by
  unfold release at h
  split at h
  · cases h
  · exact h

theorem stopAttempt_slot {state : OpState} {code : Option ErrorCode} {c : OpId}
    (h : (a.stopAttempt now id state code).slot = some c) : a.slot = some c := by
  unfold stopAttempt at h
  split at h
  · exact h
  · split at h
    · have := release_slot h
      rwa [dropAttemptUser_slot] at this
    · exact h

/-- An attempt that ended is dropped and its slot freed. -/
theorem Wf.endDropRelease {state : OpState} {code : Option ErrorCode} (h : a.Wf)
    (hcom : ∀ op, a.operations.lookup id = some op → op.committed = false)
    (hstate : state.terminal = true ∧ state ≠ .connected) : (((a.endOp now id state code).dropAttemptUser now id).release id).Wf := by
  refine (h.endOp hcom hstate).dropAttemptUser.release fun op hop => ?_
  obtain ⟨op₀, h₀, heq⟩ := lookup_dropAttemptUser hop
  rw [heq]
  exact (lookup_endOp h₀) ▸ OpState.not_active hstate.1

theorem Wf.stopAttempt {state : OpState} {code : Option ErrorCode} (h : a.Wf)
    (hact : ∀ op, a.operations.lookup id = some op → op.state.active = true)
    (hstate : state.terminal = true ∧ state ≠ .connected) : (a.stopAttempt now id state code).Wf := by
  have hcom : ∀ op, a.operations.lookup id = some op → op.committed = false := fun op hop =>
    h.not_committed_of_active hop (hact op hop)
  unfold Accounts.stopAttempt
  split
  · exact h
  · split
    · exact h.endDropRelease hcom hstate
    · exact h.endOp hcom hstate

/-! ## Login events -/

/-- The operation moves between states that are under way. -/
theorem Wf.advance {f : Operation → Operation} (h : a.Wf)
    (hact : ∀ op, a.operations.lookup id = some op → op.state.active = true)
    (hf : ∀ op, (f op).state.active = true ∧ (f op).reconcile = op.reconcile ∧ (f op).committed = op.committed) :
    (a.modify id f).Wf := by
  refine h.modify fun op hop => ⟨fun _ hc => ?_, fun _ => h.active hop (hact op hop), fun hrec => ?_, fun hc => ?_⟩
  · have := (hf op).1
    rw [hc] at this
    cases this
  · rw [(hf op).2.1, h.not_marked_of_active hop (hact op hop)] at hrec
    cases hrec
  · rw [(hf op).2.2, h.not_committed_of_active hop (hact op hop)] at hc
    cases hc

theorem Wf.checking {op : Operation} {user : UserId} {created : Operation → Bool} (h : a.Wf) (hop : a.operations.lookup id = some op)
    (hact : op.state.active = true) :
    ((a.modify id fun op => { op with userId := some user, createdByAttempt := created op }).modify id fun op => { op with state := .checking }).Wf := by
  refine Wf.advance (h.modify_same fun _ => ⟨rfl, rfl, rfl⟩) (fun op' hop' => ?_) fun _ => ⟨rfl, rfl, rfl⟩
  rw [lookup_modify, if_pos rfl, hop] at hop'
  obtain rfl := Option.some.inj hop'
  exact hact

/-- An attempt that was checked is connected, and gives the slot up. -/
theorem Wf.connect {f : Operation → Operation} (h : a.Wf)
    (hact : ∀ op, a.operations.lookup id = some op → op.state.active = true)
    (hf : ∀ op, (f op).state = .connected ∧ (f op).reconcile = op.reconcile) : ((a.modify id f).release id).Wf := by
  by_cases hsome : (a.operations.lookup id).isSome
  · obtain ⟨op, hop⟩ := Option.isSome_iff_exists.mp hsome
    have hslot : (a.modify id f).slot = some id := h.active hop (hact op hop)
    unfold Accounts.release
    rw [if_pos hslot]
    refine ⟨(fun c hc => by cases hc), fun k op' hop' => ?_, h.links⟩
    obtain ⟨rfl, op₀, h₀, rfl⟩ | ⟨hne, hop'⟩ := lookup_modify_some.mp hop'
    · refine ⟨(fun hs => by cases hs), fun hact => ?_, fun hrec => ⟨?_, (fun c hc => by cases hc)⟩, fun _ => (hf op₀).1⟩
      · rw [(hf op₀).1] at hact
        cases hact
      · rw [(hf op₀).1]
        rfl
    · refine ⟨(fun hs => by cases hs), fun hact => ?_, fun hrec => ⟨(h.marked hop' hrec).1, (fun c hc => by cases hc)⟩,
        h.committed hop'⟩
      exact absurd (Option.some.inj ((h.active hop' hact).symm.trans hslot)) hne
  · have hnone : a.modify id f = a := modify_eq_self fun op hop => by simp [hop] at hsome
    rw [hnone]
    exact h.release fun op hop => by simp [hop] at hsome

theorem Wf.reconcile {user? : Option User} (h : a.Wf)
    (hstate : ∀ op, a.operations.lookup id = some op → op.state = .checking) : (a.reconcile now id user?).Wf := by
  have hcom : ∀ op, a.operations.lookup id = some op → op.committed = false := fun op hop =>
    h.not_committed hop (by simp [hstate op hop])
  unfold Accounts.reconcile
  split
  next op user hop =>
    split
    · exact h.endDropRelease hcom (by decide)
    · split
      · exact h
      · split
        · exact h.connect (fun op hop => by rw [hstate op hop]; rfl) fun _ => ⟨rfl, rfl⟩
        · exact h.modify_same fun _ => ⟨rfl, rfl, rfl⟩
  next => exact h

/-- The slot's operation as an event finds it. -/
theorem holder_eq_some : a.holder = some op ↔ ∃ id, a.slot = some id ∧ a.operations.lookup id = some op := by
  simp [holder, Option.bind_eq_some_iff]

theorem Wf.onLoginError {code : NativeCode} (h : a.Wf) (hop : a.operations.lookup id = some op) :
    (a.onLoginError now id op code).Wf := by
  have huniq : ∀ op', a.operations.lookup id = some op' → op' = op := fun op' hop' => Option.some.inj (hop'.symm.trans hop)
  unfold Accounts.onLoginError
  split
  next state hretry =>
    split
    next hact =>
      refine h.advance (fun op' hop' => huniq op' hop' ▸ hact) fun op' => ⟨?_, rfl, rfl⟩
      cases code <;> cases hretry <;> rfl
    next => exact h
  next =>
    split
    next hact =>
      refine (h.endOp (fun op' hop' => ?_) (by decide)).release fun op' hop' => lookup_endOp hop' ▸ rfl
      exact h.not_committed_of_active hop' (huniq op' hop' ▸ hact)
    next hact => exact h.release fun op' hop' => by simpa [huniq op' hop'] using hact

theorem Wf.onLoginFinished {finished : Bool} {user? : Option User} (h : a.Wf) (hop : a.operations.lookup id = some op) :
    (a.onLoginFinished now id op finished u user?).Wf := by
  unfold Accounts.onLoginFinished
  split
  · exact h
  · have hset : (a.modify id fun op =>
        { op with userId := some u, createdByAttempt := finished && !op.preexisting.contains u }).Wf :=
      h.modify_same fun _ => ⟨rfl, rfl, rfl⟩
    split
    next hact =>
      refine (hset.advance (f := fun op => { op with state := .checking }) (fun op' hop' => ?_)
        fun _ => ⟨rfl, rfl, rfl⟩).reconcile fun op' hop' => ?_
      · obtain ⟨-, op₀, h₀, rfl⟩ | ⟨hne, -⟩ := lookup_modify_some.mp hop'
        · obtain rfl : op₀ = op := Option.some.inj (h₀.symm.trans hop)
          exact hact
        · exact absurd rfl hne
      · obtain ⟨-, op₀, -, rfl⟩ | ⟨hne, -⟩ := lookup_modify_some.mp hop'
        · rfl
        · exact absurd rfl hne
    next hact =>
      refine hset.dropAttemptUser.release fun op' hop' => ?_
      obtain ⟨op₁, h₁, heq⟩ := lookup_dropAttemptUser hop'
      rw [heq]
      obtain ⟨-, op₀, h₀, rfl⟩ | ⟨hne, -⟩ := lookup_modify_some.mp h₁
      · obtain rfl : op₀ = op := Option.some.inj (h₀.symm.trans hop)
        simpa using hact
      · exact absurd rfl hne

theorem Wf.onUserChanged {users? : Option (List UserId)} {getUser : OpId → Option User} (h : a.Wf) :
    (a.onUserChanged now u users? getUser).Wf := by
  unfold Accounts.onUserChanged
  refine List.foldlRecOn _ _ ?_ fun b hb k _ => ?_
  · split
    · exact h.eraseRemoval
    · exact h
  · split
    next op hop =>
      split
      next hstate =>
        simp only [Bool.and_eq_true, decide_eq_true_eq] at hstate
        refine hb.reconcile fun op' hop' => ?_
        obtain rfl : op' = op := Option.some.inj (hop'.symm.trans hop)
        exact hstate.1
      next => exact hb
    next => exact hb

theorem Wf.retryRemoval {users? : Option (List UserId)} (h : a.Wf) : (a.retryRemoval now u users?).Wf := by
  unfold Accounts.retryRemoval
  split
  next item users hitem =>
    split
    · exact h.beginRemoval (.inr (by simp [hitem]))
    · exact h.eraseRemoval
  next => exact h

/-- Removals of users that no link names are begun, one after another. -/
theorem Wf.beginRemovals {users : List UserId} {reason : Reason} (h : a.Wf) (hu : ∀ u ∈ users, a.linked u = false) :
    (users.foldl (fun a u => a.beginRemoval now u reason) a).Wf ∧
      (users.foldl (fun a u => a.beginRemoval now u reason) a).links = a.links := by
  refine List.foldlRecOn (motive := fun b : Accounts => b.Wf ∧ b.links = a.links) users _ ⟨h, rfl⟩
    fun b hb u hmem => ⟨hb.1.beginRemoval (.inl ?_), hb.2⟩
  rw [linked, hb.2]
  exact hu u hmem

theorem Wf.reconcileOrphans {users? : Option (List UserId)} (h : a.Wf) : (a.reconcileOrphans now id users?).1.Wf := by
  unfold Accounts.reconcileOrphans
  split
  next op users hop =>
    have hb := (@Wf.beginRemovals a now (users.filter fun u => !a.known id op u) .attempt h
      fun u hu => by
        simp only [List.mem_filter, known, Bool.not_eq_true', Bool.or_eq_false_iff] at hu
        exact hu.2.1.1.2).1
    refine hb.modify fun op hop => ?_
    have hfit := hb.rows id op hop
    exact ⟨hfit.slot, hfit.active, (fun hrec => by cases hrec), hfit.committed⟩
  next => exact h

theorem Wf.reconcileMarked {lists : OpId → Option (List UserId)} (h : a.Wf) : (a.reconcileMarked now lists).1.Wf := by
  unfold Accounts.reconcileMarked
  refine List.foldlRecOn (motive := fun p : Accounts × Bool => p.1.Wf) _ _ h fun p hp k _ => ?_
  split
  · split
    · exact hp.reconcileOrphans
    · exact hp
  · exact hp

theorem Wf.setEndedAt (h : a.Wf) : (a.modify id fun op => { op with endedAt := some now }).Wf :=
  h.modify_same fun _ => ⟨rfl, rfl, rfl⟩

theorem Wf.reconcileAll {lists : OpId → Option (List UserId)} (h : a.Wf) : (a.reconcileAll now lists).1.Wf := by
  have hm := @Wf.reconcileMarked a now lists h
  unfold Accounts.reconcileAll
  dsimp only
  split
  next hholder =>
    split
    · refine hm.freeSlot fun id op hs hop => ?_
      simp [holder, hs, hop] at hholder
    · exact hm
  next => exact hm
  next id op hslot hholder =>
    split
    next hfree =>
      simp only [Bool.and_eq_true] at hfree
      refine hm.freeSlot fun id' op' hs hop => ?_
      obtain rfl : op' = op := by simpa [holder, hs, hop] using hholder
      exact OpState.not_active hfree.2
    next => exact hm.setEndedAt

@[simp] theorem retryRemoval_links {users? : Option (List UserId)} : (a.retryRemoval now u users?).links = a.links := by
  unfold retryRemoval
  split
  · split <;> rfl
  · rfl

@[simp] theorem beginRemovals_links {users : List UserId} {reason : Reason} :
    (users.foldl (fun a u => a.beginRemoval now u reason) a).links = a.links :=
  List.foldlRecOn (motive := fun b : Accounts => b.links = a.links) users _ rfl fun _ hb _ _ => hb

@[simp] theorem reconcileOrphans_links {users? : Option (List UserId)} :
    (a.reconcileOrphans now id users?).1.links = a.links := by
  unfold reconcileOrphans
  split
  · exact beginRemovals_links
  · rfl

@[simp] theorem reconcileMarked_links {lists : OpId → Option (List UserId)} : (a.reconcileMarked now lists).1.links = a.links := by
  unfold reconcileMarked
  refine List.foldlRecOn (motive := fun p : Accounts × Bool => p.1.links = a.links) _ _ rfl fun p hp k _ => ?_
  split
  · split
    · rw [reconcileOrphans_links, hp]
    · exact hp
  · exact hp

@[simp] theorem reconcileAll_links {lists : OpId → Option (List UserId)} : (a.reconcileAll now lists).1.links = a.links := by
  unfold reconcileAll
  dsimp only
  split
  · split <;> exact reconcileMarked_links
  · exact reconcileMarked_links
  · split <;> exact reconcileMarked_links

theorem Wf.expire {ttl : Nat} (h : a.Wf) : (a.expire now ttl).Wf := by
  unfold Accounts.expire
  refine List.foldlRecOn _ _ h fun b hb k _ => ?_
  split
  next op hop =>
    have huniq : ∀ op', b.operations.lookup k = some op' → op' = op := fun op' hop' => Option.some.inj (hop'.symm.trans hop)
    split
    · split
      next hact => exact hb.stopAttempt (fun op' hop' => huniq op' hop' ▸ hact) (by decide)
      next =>
        split
        next hcon =>
          simp only [Bool.and_eq_true, Bool.not_eq_true'] at hcon
          exact (hb.endOp (fun op' hop' => huniq op' hop' ▸ hcon.2) (by decide)).dropAttemptUser
        next => exact hb
    · exact hb
  next => exact hb

theorem Wf.removalTimers {canRecover : Bool} {lists : UserId → Option (List UserId)} (h : a.Wf) :
    (a.removalTimers now canRecover lists).1.Wf := by
  unfold Accounts.removalTimers
  refine List.foldlRecOn (motive := fun p : Accounts × Bool => p.1.Wf) _ _ h fun p hp u _ => ?_
  split
  next => exact hp
  next item hitem =>
    have hsome : (p.1.pendingRemovals.lookup u).isSome := by simp [hitem]
    split
    · exact hp
    · split
      · split
        · split
          · exact hp.setRemoval hsome
          · exact hp
        · exact (hp.setRemoval hsome).retryRemoval
      · exact hp.retryRemoval

theorem Wf.prune {ttl : Nat} (h : a.Wf) : (a.prune now ttl).Wf := by
  have hsub : ∀ k op, (a.prune now ttl).operations.lookup k = some op → a.operations.lookup k = some op := fun k op hop => by
    rw [Accounts.prune, Table.lookup_delete] at hop
    exact (Option.filter_eq_some_iff.mp hop).1
  refine ⟨fun id hid => ?_, fun k op hop => { h.rows k op (hsub k op hop) with }, h.links⟩
  have hid : a.slot = some id := hid
  obtain ⟨op, hop⟩ := h.slot id hid
  refine ⟨op, ?_⟩
  rw [Accounts.prune, Table.lookup_delete, hop]
  simp [hid]

theorem Wf.start (h : a.Wf) (hslot : a.slot = none) (hpending : a.reconcilePending = false) (hstate : op.state ≠ .connected)
    (hrec : op.reconcile = false) (hcom : op.committed = false) :
    Wf { a with operations := a.operations.insert id op, slot := some id } := by
  have hrow : ∀ k op', (a.operations.insert id op).lookup k = some op' →
      (k = id ∧ op' = op) ∨ (k ≠ id ∧ a.operations.lookup k = some op') := fun k op' hop => by
    rw [Table.lookup_insert'] at hop
    split at hop
    next hk => exact .inl ⟨hk, (Option.some.inj hop).symm⟩
    next hk => exact .inr ⟨hk, hop⟩
  refine ⟨fun c hc => ?_, fun k op' hop => ?_, h.links⟩
  · cases hc
    exact ⟨op, AList.lookup_insert _⟩
  · obtain ⟨rfl, rfl⟩ | ⟨hne, hop⟩ := hrow k op' hop
    · exact ⟨fun _ => hstate, fun _ => rfl, fun hr => by simp [hrec] at hr, fun hc => by simp [hcom] at hc⟩
    · refine ⟨fun hs => absurd (Option.some.inj hs).symm hne, fun hact => ?_, fun hr => ?_, h.committed hop⟩
      · exact absurd (h.active hop hact) (by simp [hslot])
      · exact absurd (reconcilePending_eq_true.mpr ⟨k, op', hop, hr⟩) (by simp [hpending])

theorem Wf.link {email : Address} {g : Generation} (h : a.Wf) (hu : a.pendingRemovals.lookup u = none) :
    Wf { a with links := a.links.insert (u, email) g } where
  slot := h.slot
  rows k op hop := { h.rows k op hop with }
  links v email' g' hl := by
    have hl : (a.links.insert (u, email) g).lookup (v, email') = some g' := hl
    rw [Table.lookup_insert'] at hl
    split at hl
    next heq =>
      cases heq
      exact hu
    next => exact h.links v email' g' hl

theorem Wf.unlink {email : Address} (h : a.Wf) : Wf { a with links := a.links.erase (u, email) } where
  slot := h.slot
  rows k op hop := { h.rows k op hop with }
  links v email' g' hl := by
    have hl : (a.links.erase (u, email)).lookup (v, email') = some g' := hl
    rw [Table.lookup_erase'] at hl
    split at hl
    next => cases hl
    next => exact h.links v email' g' hl

theorem others_eq_false {email : Address}
    (h : (a.links.entries.any fun e => e.1.1 = u && e.1 ≠ (u, email)) = false) :
    linked { a with links := a.links.erase (u, email) } u = false := by
  refine Bool.eq_false_iff.mpr fun hl => ?_
  obtain ⟨email', g, hl⟩ := linked_eq_true.mp hl
  have hl : (a.links.erase (u, email)).lookup (u, email') = some g := hl
  rw [Table.lookup_erase'] at hl
  split at hl
  next => cases hl
  next hne =>
    refine Bool.eq_false_iff.mp h (List.any_eq_true.mpr ⟨_, Table.mem_entries.mpr hl, ?_⟩)
    simpa using hne

end Accounts

structure Journal.Wf (j : Journal) : Prop where
  committed : ∀ id op, j.operations.lookup id = some op → op.committed = true → op.state = .connected
  links : ∀ u email g, j.links.lookup (u, email) = some g → j.pendingRemovals.lookup u = none

theorem Accounts.lookup_saved {a : Accounts} {id : OpId} {op : Operation} :
    a.saved.operations.lookup id = some op ↔ ∃ op₀, a.operations.lookup id = some op₀ ∧ op₀.saved = op := by
  simp [saved]

theorem Journal.lookup_load {j : Journal} {now : Nat} {asked : List UserId} {id : OpId} {op : Operation} :
    (j.load now asked).operations.lookup id = some op ↔ ∃ op₀, j.operations.lookup id = some op₀ ∧ op₀.loaded now = op := by
  simp [load]

theorem Operation.loaded_terminal (op : Operation) (now : Nat) : (op.loaded now).state.terminal = true := by
  unfold loaded
  split
  · rfl
  next h => exact OpState.terminal_of_not_active (by simpa using h)

theorem Accounts.Wf.saved {a : Accounts} (h : a.Wf) : a.saved.Wf where
  committed id op hop hc := by
    obtain ⟨op₀, h₀, rfl⟩ := lookup_saved.mp hop
    exact (h.rows id op₀ h₀).committed hc
  links u email g hl := by
    have := h.links u email g hl
    simp [Accounts.saved, this]

theorem Journal.Wf.load {j : Journal} {now : Nat} {asked : List UserId} (h : j.Wf) : (j.load now asked).Wf where
  slot id hid := by cases hid
  rows id op hop := by
    obtain ⟨op₀, h₀, rfl⟩ := lookup_load.mp hop
    have hterm := op₀.loaded_terminal now
    refine ⟨(fun hs => by cases hs), fun hact => ?_, fun _ => ⟨hterm, (fun c hc => by cases hc)⟩, fun hc => ?_⟩
    · simp [OpState.not_active hterm] at hact
    · unfold Operation.loaded at hc ⊢
      split at hc
      next hact =>
        rw [h.committed id op₀ h₀ hc] at hact
        cases hact
      next hact =>
        rw [if_neg hact]
        exact h.committed id op₀ h₀ hc
  links u email g hl := by
    have := h.links u email g hl
    simp [Journal.load, this]

/-! ## The methods -/

namespace State

variable {cfg : Config} {s s' : State} {n : Native}

def restarted (s : State) (n : Native) : Accounts :=
  s.accounts.pendingRemovals.keys.foldl (fun a u => a.retryRemoval s.now u (s.list n (.earlier u)))
    (s.accounts.reconcileAll s.now fun id => s.list n (.orphans id)).1

theorem afterRestart_eq : ∃ timers, s.afterRestart n = { s with accounts := s.restarted n, timers := timers } := ⟨_, rfl⟩

theorem reconcileAll_eq : ∃ timers, (s.reconcileAll n).1 =
    { s with accounts := (s.accounts.reconcileAll s.now fun id => s.list n (.orphans id)).1, timers := timers } := ⟨_, rfl⟩

/-- The four ways `_ensure_started` goes. -/
theorem ensureStarted_cases : s.ensureStarted n = (s, .ok ()) ∧ s.alive = true ∨
    s.ensureStarted n = (s, .error .maintenanceBusy) ∧ s.alive = false ∧ s.snapshot.isSome = true ∨
    s.alive = false ∧ s.snapshot = none ∧
      ((∃ bridge, (bridge = s.bridge.launch n ∨ s.started = false ∧ s.bridge.running = true ∧ bridge = s.bridge) ∧
        s.ensureStarted n = (afterRestart { s with bridge := bridge, started := true, nativeLost := false } n, .ok ())) ∨
      (n.launches = false ∧ s.ensureStarted n = ({ s with bridge := s.bridge.launch n, started := false }, .error .unavailable))) := by
  unfold ensureStarted
  cases halive : s.alive with
  | true => exact .inl ⟨rfl, rfl⟩
  | false =>
    cases hsnap : s.snapshot with
    | some gate => exact .inr (.inl ⟨rfl, rfl, rfl⟩)
    | none =>
      refine .inr (.inr ⟨rfl, rfl, ?_⟩)
      cases hst : s.started with
      | true => cases hl : n.launches <;> simp [Bridge.recover, hl]
      | false =>
        cases hrun : s.bridge.running with
        | true => simp [Bridge.start, hrun]
        | false => cases hl : n.launches <;> simp [Bridge.start, hrun, hl]

theorem Accounts.Wf.restarted (h : s.accounts.Wf) : (s.restarted n).Wf := by
  unfold State.restarted
  exact List.foldlRecOn _ _ h.reconcileAll fun b hb u _ => hb.retryRemoval

theorem restarted_links : (s.restarted n).links = s.accounts.links := by
  unfold restarted
  refine List.foldlRecOn (motive := fun b : Accounts => b.links = s.accounts.links) _ _ Accounts.reconcileAll_links
    fun b hb u _ => ?_
  rw [Accounts.retryRemoval_links, hb]

theorem ensureStarted_links : (s.ensureStarted n).1.accounts.links = s.accounts.links := by
  obtain ⟨heq, -⟩ | ⟨heq, -⟩ | ⟨-, -, ⟨bridge, -, heq⟩ | ⟨-, heq⟩⟩ := @ensureStarted_cases s n <;> rw [heq]
  exact restarted_links (s := { s with bridge := bridge, started := true, nativeLost := false })

structure Wf (s : State) : Prop where
  accounts : s.accounts.Wf
  journal : s.journal.Wf
  recovery : s.recovery.isSome = true → s.recovering = true

theorem Wf.persist (h : s.Wf) : s.persist.Wf := ⟨h.accounts, h.accounts.saved, h.recovery⟩

theorem Wf.ensureStarted (h : s.Wf) : (s.ensureStarted n).1.Wf := by
  obtain ⟨heq, -⟩ | ⟨heq, -⟩ | ⟨-, -, ⟨bridge, -, heq⟩ | ⟨-, heq⟩⟩ := @ensureStarted_cases s n <;> rw [heq]
  · exact h
  · exact h
  · exact ⟨Accounts.Wf.restarted (s := { s with bridge := bridge, started := true, nativeLost := false }) h.accounts,
      h.journal, h.recovery⟩
  · exact ⟨h.accounts, h.journal, h.recovery⟩

theorem busy_eq_false (h : s.busy = false) : s.accounts.slot = none ∧ s.recovering = false ∧ s.snapshot = none ∧
    s.accounts.reconcilePending = false := by
  simp only [busy, Bool.or_eq_false_iff, Option.isSome_eq_false_iff, Option.isNone_iff_eq_none] at h
  exact ⟨h.1.1.1.1, h.1.1.1.2, h.1.1.2, h.1.2⟩

theorem Wf.setAccounts {a : Accounts} (h : s.Wf) (ha : a.Wf) : State.Wf { s with accounts := a } := ⟨ha, h.journal, h.recovery⟩

theorem Wf.startConnection {id : OpId} {email : Address} (h : s.Wf) : (s.startConnection n id email).1.Wf := by
  unfold State.startConnection
  split
  · exact h
  · split
    · exact h
    · have h₁ := h.ensureStarted (n := n)
      split
      next heq =>
        rw [heq] at h₁
        exact h₁
      next s₁ heq =>
        rw [heq] at h₁
        split
        · exact h₁
        next hbusy =>
          obtain ⟨hslot, -, -, hpending⟩ := busy_eq_false (by simpa using hbusy)
          split
          · exact h₁
          next users hlist =>
            have h₂ := h₁.setAccounts (@Accounts.Wf.start _ id
              { email := email, createdAt := s₁.now, preexisting := users } h₁.accounts hslot hpending (by simp) rfl rfl)
            have h₃ := h₂.persist
            dsimp only
            split
            · exact ⟨h₃.accounts, h₃.journal, h₃.recovery⟩
            · refine Wf.persist ⟨h₃.accounts.endOp (fun op hop => ?_) (by decide), h₃.journal, h₃.recovery⟩
              have hop : (s₁.accounts.operations.insert id { email := email, createdAt := s₁.now, preexisting := users }).lookup
                id = some op := hop
              rw [AList.lookup_insert] at hop
              cases hop
              rfl

theorem Wf.continueConnection {id : OpId} {challenge : OpState} (h : s.Wf) : (s.continueConnection n id challenge).1.Wf := by
  unfold State.continueConnection
  split
  · exact h
  next op hop =>
    split
    next hch =>
      have hact : op.state.active = true := by
        simp only [Bool.and_eq_true, Bool.or_eq_true, decide_eq_true_eq] at hch
        rcases hch.1.1 with hc | hc <;> rw [hch.1.2, hc] <;> rfl
      have hadv : (s.accounts.modify id fun op => { op with state := .authenticating, errorCode := none }).Wf :=
        h.accounts.advance (fun op' hop' => Option.some.inj (hop'.symm.trans hop) ▸ hact) fun _ => ⟨rfl, rfl, rfl⟩
      have h₁ := (h.setAccounts hadv).persist
      dsimp only
      split
      · exact Wf.persist ⟨h₁.accounts, h₁.journal, h₁.recovery⟩
      · refine Wf.persist ⟨h₁.accounts.endOp (fun op' hop' => ?_) (by decide), h₁.journal, h₁.recovery⟩
        refine hadv.not_committed_of_active hop' ?_
        obtain ⟨-, op₀, -, rfl⟩ | ⟨hne, -⟩ := Accounts.lookup_modify_some.mp hop'
        · rfl
        · exact absurd rfl hne
    · exact h

theorem Wf.cancelConnection {id : OpId} (h : s.Wf) : (s.cancelConnection id).1.Wf := by
  unfold State.cancelConnection
  split
  · exact h
  next op hop =>
    have huniq : ∀ op', s.accounts.operations.lookup id = some op' → op' = op := fun op' hop' =>
      Option.some.inj (hop'.symm.trans hop)
    dsimp only
    refine (h.setAccounts ?_).persist
    split
    next hcon =>
      simp only [Bool.and_eq_true, Bool.not_eq_true'] at hcon
      exact (h.accounts.endOp (fun op' hop' => huniq op' hop' ▸ hcon.2) (by decide)).dropAttemptUser
    next =>
      split
      next hact => exact h.accounts.stopAttempt (fun op' hop' => huniq op' hop' ▸ hact) (by decide)
      next => exact h.accounts

theorem Wf.commitConnection {id : OpId} {u : UserId} {g : Generation} {previous : Option Generation} (h : s.Wf) :
    (s.commitConnection cfg id u g previous).1.Wf := by
  unfold State.commitConnection
  split
  · exact h
  next op hop =>
    split
    · exact h
    · split
      · exact h
      next hcon =>
        split
        · exact h
        next hpending =>
          split
          · exact h
          · have hlink := @Accounts.Wf.link _ u op.email g h.accounts (by simpa using hpending)
            refine (h.setAccounts ?_).persist
            split
            · exact hlink
            · have hstate : op.state = .connected := by
                by_contra hne
                simp [hne] at hcon
              have huniq : ∀ op', s.accounts.operations.lookup id = some op' → op' = op := fun op' hop' =>
                Option.some.inj (hop'.symm.trans hop)
              refine hlink.modify fun op' hop' => ?_
              have hfit := hlink.rows id op' hop'
              exact ⟨hfit.slot, hfit.active, hfit.marked, fun _ => by rw [huniq op' hop', hstate]⟩

theorem Wf.credentials {u : UserId} {owner : Owner} (h : s.Wf) : (s.credentials cfg n u owner).1.Wf := by
  unfold State.credentials
  split
  · exact h
  · have h₁ := h.ensureStarted (n := n)
    split
    next heq =>
      rw [heq] at h₁
      exact h₁
    next heq =>
      rw [heq] at h₁
      exact h₁

theorem Wf.removeUser {u : UserId} {g : Generation} {email : Address} (h : s.Wf) : (s.removeUser cfg n u g email).1.Wf := by
  unfold State.removeUser
  split
  · exact h
  · split
    · exact h
    · split
      · exact h
      · dsimp only
        have h₁ : (if (s.accounts.links.entries.any fun e => e.1.1 = u && e.1 ≠ (u, email)) = true then (s, .ok ())
            else s.ensureStarted n : State × Except WorkerError Unit).1.Wf := by
          split
          · exact h
          · exact h.ensureStarted
        have hlinks : (if (s.accounts.links.entries.any fun e => e.1.1 = u && e.1 ≠ (u, email)) = true then (s, .ok ())
            else s.ensureStarted n : State × Except WorkerError Unit).1.accounts.links = s.accounts.links := by
          split
          · rfl
          · exact ensureStarted_links
        split
        next heq =>
          rw [heq] at h₁
          exact h₁
        next s₁ heq =>
          rw [heq] at h₁ hlinks
          have hu := @Accounts.Wf.unlink _ u email h₁.accounts
          split
          · exact (h₁.setAccounts hu).persist
          next hothers =>
            split
            · exact (h₁.setAccounts hu.handOver).persist
            · refine (h₁.setAccounts ?_).persist
              split
              · exact hu
              · refine hu.beginRemoval (.inl (Accounts.others_eq_false ?_))
                rw [hlinks]
                exact Bool.eq_false_iff.mpr hothers

/-! ## The gate and the timers -/

theorem Wf.settleHolder (h : s.accounts.Wf) : s.settleHolder.Wf := by
  unfold State.settleHolder
  split
  next id op hslot hholder =>
    obtain ⟨id', hid, hop⟩ := Accounts.holder_eq_some.mp hholder
    obtain rfl : id = id' := Option.some.inj (hslot.symm.trans hid)
    have huniq : ∀ op', s.accounts.operations.lookup id = some op' → op' = op := fun op' hop' =>
      Option.some.inj (hop'.symm.trans hop)
    dsimp only
    have hstop : ((if op.state.active then s.accounts.stopAttempt s.now id .expired none else s.accounts) : Accounts).Wf := by
      split
      next hact => exact h.stopAttempt (fun op' hop' => huniq op' hop' ▸ hact) (by decide)
      next => exact h
    have hslot' : ∀ c, ((if op.state.active then s.accounts.stopAttempt s.now id .expired none else s.accounts) :
        Accounts).slot = some c → c = id := fun c hc => by
      split at hc
      · exact Option.some.inj ((Accounts.stopAttempt_slot hc).symm.trans hslot)
      · exact Option.some.inj (hc.symm.trans hslot)
    refine hstop.modify fun op' hop' => ?_
    have hfit := hstop.rows id op' hop'
    by_cases hterm : op'.state.terminal = true
    · rw [if_pos hterm]
      exact ⟨hfit.slot, hfit.active, fun _ => ⟨hterm, hslot'⟩, hfit.committed⟩
    · rw [if_neg hterm]
      exact hfit
  next => exact h

theorem Wf.grant {id : SnapshotId} (h : s.Wf) : (s.grant id).Wf := ⟨h.accounts, h.journal, h.recovery⟩

theorem Wf.drain {w : Waiter} (h : s.Wf) : (s.drain cfg n w).1.Wf := by
  unfold State.drain
  split
  · exact h
  · split
    · have hset : State.Wf { s with accounts := s.settleHolder } := h.setAccounts (Wf.settleHolder h.accounts)
      unfold State.stopForSnapshot
      dsimp only
      split
      · split
        · exact Wf.grant (Wf.persist ⟨hset.accounts, hset.journal, hset.recovery⟩)
        · exact ⟨hset.accounts, hset.journal, hset.recovery⟩
      · exact hset.persist.grant
    · split
      · exact ⟨h.accounts, h.journal, h.recovery⟩
      · exact ⟨h.accounts, h.journal, h.recovery⟩

theorem Wf.snapshotBegin {id : SnapshotId} (h : s.Wf) : (s.snapshotBegin cfg n id).1.Wf := by
  unfold State.snapshotBegin
  dsimp only
  split
  · split
    · exact h.grant
    · split
      · exact h
      · exact Wf.grant ⟨h.accounts, h.journal, h.recovery⟩
  · exact Wf.drain ⟨h.accounts, h.journal, h.recovery⟩

theorem Wf.openGate (h : s.Wf) : (s.openGate cfg n).Wf := by
  have hopen : State.Wf { s with snapshot := none, granted := none } := ⟨h.accounts, h.journal, h.recovery⟩
  unfold State.openGate
  dsimp only
  split
  · have h₁ := hopen.ensureStarted (n := n)
    split
    next heq =>
      rw [heq] at h₁
      exact h₁.persist
    next heq =>
      rw [heq] at h₁
      exact Wf.persist ⟨h₁.accounts, h₁.journal, h₁.recovery⟩
  · exact hopen.persist

theorem Wf.snapshotEnd {id : SnapshotId} (h : s.Wf) : (s.snapshotEnd cfg n id).1.Wf := by
  unfold State.snapshotEnd
  split
  · exact h
  · split
    · exact h.openGate
    · exact h

theorem Wf.markHolder (h : s.Wf) (hdue : s.holderDue cfg = true) : s.markHolder.Wf := by
  unfold State.markHolder
  split
  · exact h
  next id hslot =>
    obtain ⟨op, hholder, hcond⟩ := (Option.any_eq_true _ _).mp hdue
    obtain ⟨id', hid, hop⟩ := Accounts.holder_eq_some.mp hholder
    obtain rfl : id = id' := Option.some.inj (hslot.symm.trans hid)
    simp only [Bool.and_eq_true] at hcond
    refine h.setAccounts (h.accounts.modify fun op' hop' => ?_)
    obtain rfl : op' = op := Option.some.inj (hop'.symm.trans hop)
    have hfit := h.accounts.rows id op' hop
    exact ⟨hfit.slot, hfit.active, fun _ => ⟨hcond.1.1, fun c hc => Option.some.inj (hc.symm.trans hslot)⟩, hfit.committed⟩

theorem Wf.tickBridge {recover : Bool} (h : s.Wf) : (s.tickBridge cfg n recover).1.Wf := by
  unfold State.tickBridge
  split
  · split
    · exact h
    · exact ⟨h.accounts, h.journal, h.recovery⟩
  · split
    · have h₁ := h.ensureStarted (n := n)
      split
      next heq =>
        rw [heq] at h₁
        exact h₁
      next heq =>
        rw [heq] at h₁
        exact ⟨h₁.accounts, h₁.journal, h₁.recovery⟩
    · exact h

theorem Wf.tickReconcile {recover : Bool} (h : s.Wf) : (s.tickReconcile n recover).1.Wf := by
  unfold State.tickReconcile
  split
  · obtain ⟨timers, heq⟩ := @reconcileAll_eq s n
    dsimp only
    rw [heq]
    exact ⟨h.accounts.reconcileAll, h.journal, h.recovery⟩
  · exact h

theorem Wf.tickRemovals (h : s.Wf) : (s.tickRemovals cfg n).1.Wf := by
  unfold State.tickRemovals
  dsimp only
  split
  next hdue => exact (h.setAccounts h.accounts.removalTimers).markHolder hdue
  next => exact h.setAccounts h.accounts.removalTimers

theorem Wf.tickChecks (h : s.Wf) : (s.tickChecks cfg n).1.Wf := h.tickRemovals.tickBridge.tickReconcile

theorem Wf.tickOpen (h : s.Wf) : (s.tickOpen cfg n).Wf := by
  have hexp : (s.tickExpire cfg).Wf := h.setAccounts h.accounts.expire
  have hchecked : (if (s.tickExpire cfg).recovering then (s.tickExpire cfg, false)
      else (s.tickExpire cfg).tickChecks cfg n).1.Wf := by
    split
    · exact hexp
    · exact hexp.tickChecks
  exact Wf.persist ⟨hchecked.accounts.prune, hchecked.journal, fun hr => by
    rw [Bool.or_eq_true]
    exact .inl (hchecked.recovery hr)⟩

/-- The two ways `tick` goes. -/
theorem tick_cases : (s.tickGate cfg n = none ∧ s.tick cfg n = s) ∨
    ∃ t, s.tickGate cfg n = some t ∧ (t = s ∧ s.snapshot = none ∨ t = s.openGate cfg n) ∧ s.tick cfg n = t.tickOpen cfg n := by
  unfold State.tick
  cases hgate : s.tickGate cfg n with
  | none => exact .inl ⟨rfl, rfl⟩
  | some t =>
    refine .inr ⟨t, rfl, ?_, rfl⟩
    unfold State.tickGate at hgate
    split at hgate
    next hnone =>
      cases hgate
      exact .inl ⟨rfl, hnone⟩
    next =>
      split at hgate
      · cases hgate
      · cases hgate
        exact .inr rfl

theorem Wf.tick (h : s.Wf) : (s.tick cfg n).Wf := by
  obtain ⟨-, heq⟩ | ⟨t, -, ⟨rfl, -⟩ | rfl, heq⟩ := @tick_cases cfg s n <;> rw [heq]
  · exact h
  · exact h.tickOpen
  · exact h.openGate.tickOpen

theorem Wf.afterRestart (h : s.Wf) : (s.afterRestart n).Wf := by
  obtain ⟨timers, heq⟩ := @afterRestart_eq s n
  rw [heq]
  exact ⟨Accounts.Wf.restarted h.accounts, h.journal, h.recovery⟩

theorem Wf.recovered {ok : Bool} (h : s.Wf) : (s.recovered n ok).Wf := by
  have hset : State.Wf { s with recovering := false, recovery := none, started := ok, nativeLost := false } :=
    ⟨h.accounts, h.journal, fun hr => by cases hr⟩
  unfold State.recovered
  dsimp only
  split
  · exact hset.afterRestart.persist
  · split
    · exact hset.persist
    · exact (hset.setAccounts h.accounts.setEndedAt).persist

theorem Wf.onLoginEvent {e : LoginEvent} (h : s.accounts.Wf) : (s.onLoginEvent n e).Wf := by
  unfold State.onLoginEvent
  split
  next id op hslot hholder =>
    obtain ⟨id', hid, hop⟩ := Accounts.holder_eq_some.mp hholder
    obtain rfl : id = id' := Option.some.inj (hslot.symm.trans hid)
    have huniq : ∀ op', s.accounts.operations.lookup id = some op' → op' = op := fun op' hop' =>
      Option.some.inj (hop'.symm.trans hop)
    split
    · split
      next hact => exact h.advance (fun op' hop' => huniq op' hop' ▸ hact) fun _ => ⟨rfl, rfl, rfl⟩
      next => exact h
    · split
      next hact => exact h.advance (fun op' hop' => huniq op' hop' ▸ hact) fun _ => ⟨rfl, rfl, rfl⟩
      next => exact h
    · split
      next hact => exact h.stopAttempt (fun op' hop' => huniq op' hop' ▸ hact) (by decide)
      next => exact h
    · exact h.onLoginError hop
    · exact h.onLoginFinished hop
    · exact h.onLoginFinished hop
  next => exact h

theorem Wf.onEvent {e : Event} (h : s.Wf) : (s.onEvent n e).Wf := by
  refine Wf.persist ⟨?_, h.journal, h.recovery⟩
  cases e with
  | login k e => exact Wf.onLoginEvent h.accounts
  | userChanged u => exact h.accounts.onUserChanged
  | streamEnded => exact h.accounts
  | noKeychain => exact h.accounts

theorem Wf.boot (h : s.Wf) : (s.boot n).Wf := by
  unfold State.boot
  split
  · have h₁ := h.ensureStarted (n := n)
    split
    next heq =>
      rw [heq] at h₁
      exact h₁.persist
    next heq =>
      rw [heq] at h₁
      exact h₁
  · exact h

/-! ## What the methods leave alone -/

/-- A state without its accounts, journal, timers and native logins. -/
def outer (s : State) : State :=
  { s with accounts := ⟨∅, ∅, ∅, none, []⟩, journal := ⟨∅, ∅, ∅⟩, timers := {}, bridge := { s.bridge with logins := [] } }

section Outer

variable {t : State}

theorem started_of_outer (h : t.outer = s.outer) : t.started = s.started := by
  have := congrArg State.started h
  exact this

theorem recovery_of_outer (h : t.outer = s.outer) : t.recovery = s.recovery := by
  have := congrArg State.recovery h
  exact this

theorem granted_of_outer (h : t.outer = s.outer) : t.granted = s.granted := by
  have := congrArg State.granted h
  exact this

theorem running_of_outer (h : t.outer = s.outer) : t.bridge.running = s.bridge.running := by
  have := congrArg (fun t : State => t.bridge.running) h
  exact this

end Outer

theorem startConnection_outer {id : OpId} {email : Address} :
    (s.startConnection n id email).1.outer = s.outer ∨ (s.startConnection n id email).1.outer = (s.ensureStarted n).1.outer := by
  unfold State.startConnection
  split
  · exact .inl rfl
  · split
    · exact .inl rfl
    · split
      next heq => exact .inr (by rw [heq])
      next heq =>
        refine .inr ?_
        rw [heq]
        split
        · rfl
        · split
          · rfl
          · dsimp only
            split <;> rfl

theorem continueConnection_outer {id : OpId} {challenge : OpState} : (s.continueConnection n id challenge).1.outer = s.outer := by
  unfold State.continueConnection
  split
  · rfl
  · split
    · dsimp only
      split <;> rfl
    · rfl

theorem cancelConnection_outer {id : OpId} : (s.cancelConnection id).1.outer = s.outer := by
  unfold State.cancelConnection
  split <;> rfl

theorem commitConnection_outer {id : OpId} {u : UserId} {g : Generation} {previous : Option Generation} :
    (s.commitConnection cfg id u g previous).1.outer = s.outer := by
  unfold State.commitConnection
  split
  · rfl
  · split
    · rfl
    · split
      · rfl
      · split
        · rfl
        · split <;> rfl

theorem credentials_outer {u : UserId} {owner : Owner} :
    (s.credentials cfg n u owner).1.outer = s.outer ∨ (s.credentials cfg n u owner).1.outer = (s.ensureStarted n).1.outer := by
  unfold State.credentials
  split
  · exact .inl rfl
  · split
    next heq => exact .inr (by rw [heq])
    next heq => exact .inr (by rw [heq])

theorem removeUser_outer {u : UserId} {g : Generation} {email : Address} :
    (s.removeUser cfg n u g email).1.outer = s.outer ∨ (s.removeUser cfg n u g email).1.outer = (s.ensureStarted n).1.outer := by
  unfold State.removeUser
  split
  · exact .inl rfl
  · split
    · exact .inl rfl
    · split
      · exact .inl rfl
      · dsimp only
        by_cases hothers : (s.accounts.links.entries.any fun e => e.1.1 = u && e.1 ≠ (u, email)) = true
        · simp only [if_pos hothers]
          exact .inl rfl
        · simp only [if_neg hothers]
          split
          next heq => exact .inr (by rw [heq])
          next heq =>
            refine .inr ?_
            rw [heq]
            split <;> rfl

theorem boot_outer : (s.boot n).outer = s.outer ∨ (s.boot n).outer = (s.ensureStarted n).1.outer := by
  unfold State.boot
  split
  · split
    next heq => exact .inr (by rw [heq]; rfl)
    next heq => exact .inr (by rw [heq])
  · exact .inl rfl

theorem openGate_outer : (s.openGate cfg n).outer = { s with snapshot := none, granted := none }.outer ∨
    (s.openGate cfg n).outer = (({ s with snapshot := none, granted := none } : State).ensureStarted n).1.outer := by
  unfold State.openGate
  dsimp only
  split
  · split
    next heq => exact .inr (by rw [heq]; rfl)
    next heq => exact .inr (by rw [heq]; rfl)
  · exact .inl rfl

theorem tickRemovals_outer : (s.tickRemovals cfg n).1.outer = s.outer := by
  unfold State.tickRemovals
  dsimp only
  split
  · unfold State.markHolder
    split <;> rfl
  · rfl

/-- Bridge is taken for stopped: nothing needs it. -/
def Forgotten (s : State) : Prop :=
  s.started = true ∧ s.alive = false ∧ s.needsBridge = false ∧ s.accounts.slot = none

theorem tickBridge_cases {recover : Bool} : (s.tickBridge cfg n recover).1 = s ∨
    s.Forgotten ∧ (s.tickBridge cfg n recover).1 = { s with started := false, nativeLost := false } ∨
    s.started = false ∧ ∃ timers, (s.tickBridge cfg n recover).1 = { (s.ensureStarted n).1 with timers := timers } := by
  unfold State.tickBridge
  split
  next hdead =>
    simp only [Bool.and_eq_true, Bool.not_eq_true'] at hdead
    split
    · exact .inl rfl
    next hneeds =>
      simp only [Bool.or_eq_true, not_or, Bool.not_eq_true, Option.isSome_eq_false_iff, Option.isNone_iff_eq_none] at hneeds
      exact .inr (.inl ⟨⟨hdead.1, hdead.2, hneeds.1, hneeds.2⟩, rfl⟩)
  · split
    next hst =>
      simp only [Bool.and_eq_true, Bool.not_eq_true'] at hst
      refine .inr (.inr ⟨hst.1.1, ?_⟩)
      split
      next heq => exact ⟨_, by rw [heq]⟩
      next heq => exact ⟨_, by rw [heq]⟩
    · exact .inl rfl

theorem tickReconcile_outer {recover : Bool} : (s.tickReconcile n recover).1.outer = s.outer := by
  unfold State.tickReconcile
  split <;> rfl

/-- Outside the accounts a `tick` with the gate open does to Bridge what `tickBridge` does, and may start a recovery. -/
theorem tickOpen_outer : ∃ recovering t, (s.tickOpen cfg n).outer = ({ t with recovering := recovering } : State).outer ∧
    (s.recovering = true → recovering = true) ∧
    (t.outer = s.outer ∨ s.recovering = false ∧
      ∃ recover, t = (((s.tickExpire cfg).tickRemovals cfg n).1.tickBridge cfg n recover).1) := by
  unfold State.tickOpen
  dsimp only
  by_cases hrec : (s.tickExpire cfg).recovering = true
  · simp only [if_pos hrec]
    exact ⟨s.recovering || false, s, rfl, fun h => by rw [h]; rfl, .inl rfl⟩
  · simp only [if_neg hrec]
    refine ⟨((s.tickExpire cfg).tickChecks cfg n).1.recovering || ((s.tickExpire cfg).tickChecks cfg n).2,
      (((s.tickExpire cfg).tickRemovals cfg n).1.tickBridge cfg n ((s.tickExpire cfg).tickRemovals cfg n).2).1, ?_, fun h => ?_,
      .inr ⟨by simpa [tickExpire] using hrec, _, rfl⟩⟩
    · have houter := @tickReconcile_outer (((s.tickExpire cfg).tickRemovals cfg n).1.tickBridge cfg n
        ((s.tickExpire cfg).tickRemovals cfg n).2).1 n (((s.tickExpire cfg).tickRemovals cfg n).1.tickBridge cfg n
        ((s.tickExpire cfg).tickRemovals cfg n).2).2
      have := congrArg (fun t : State => ({ t with recovering := ((s.tickExpire cfg).tickChecks cfg n).1.recovering ||
        ((s.tickExpire cfg).tickChecks cfg n).2 } : State)) houter
      exact this
    · exact absurd h (by simpa [tickExpire] using hrec)

/-! ## Every run -/

theorem releaseSendLease_eq {lease : LeaseId} : ∃ cancelled, s.releaseSendLease lease =
    { s with sendLeases := s.sendLeases.filter (· ≠ lease), cancelledLeases := cancelled } := by
  unfold State.releaseSendLease
  split
  · exact ⟨_, rfl⟩
  next hnot =>
    have hfilter : s.sendLeases.filter (· ≠ lease) = s.sendLeases := List.filter_eq_self.mpr fun l hl => by
      simpa using fun heq : l = lease => hnot (heq ▸ by simpa using hl)
    rw [hfilter]
    exact ⟨_, rfl⟩

theorem Wf.step {l : Label} (h : s.Wf) (hstep : ProtonWorker.step cfg s l = some s') : s'.Wf := by
  have hframe : ∀ {t : State}, t.accounts = s.accounts → t.journal = s.journal → t.recovery = s.recovery →
      t.recovering = s.recovering → t.Wf := fun ha hj hr hr' =>
    ⟨ha ▸ h.accounts, hj ▸ h.journal, by rw [hr, hr']; exact h.recovery⟩
  cases l with
  | start id email n => cases hstep; exact h.startConnection
  | continueLogin id challenge n => cases hstep; exact h.continueConnection
  | cancel id => cases hstep; exact h.cancelConnection
  | commit id u g previous => cases hstep; exact h.commitConnection
  | credentials u owner n => cases hstep; exact h.credentials
  | remove u g email n => cases hstep; exact h.removeUser
  | acquire lease =>
    cases hstep
    unfold State.acquireSendLease
    split
    · exact hframe rfl rfl rfl rfl
    · split
      · exact h
      · split
        · exact h
        · exact hframe rfl rfl rfl rfl
  | release lease =>
    cases hstep
    unfold State.releaseSendLease
    split <;> exact hframe rfl rfl rfl rfl
  | begin id n => cases hstep; exact h.snapshotBegin
  | wake i n =>
    obtain ⟨w, -, rfl⟩ := Option.map_eq_some_iff.mp hstep
    exact Wf.drain (hframe rfl rfl rfl rfl)
  | endSnapshot id n => cases hstep; exact h.snapshotEnd
  | renew id =>
    cases hstep
    unfold State.snapshotRenew
    split
    · exact h
    · split
      · exact hframe rfl rfl rfl rfl
      · exact h
  | tick n => cases hstep; exact h.tick
  | recoverNative n =>
    simp only [ProtonWorker.step, Option.ite_none_right_eq_some, Bool.and_eq_true] at hstep
    obtain ⟨⟨hrec, -⟩, hstep⟩ := hstep
    cases hstep
    exact ⟨h.accounts, h.journal, fun _ => hrec⟩
  | recovered n =>
    obtain ⟨ok, -, rfl⟩ := Option.map_eq_some_iff.mp hstep
    exact h.recovered
  | boot n => cases hstep; exact h.boot
  | restart sent =>
    cases hstep
    exact ⟨h.journal.load, h.journal, fun hr => by cases hr⟩
  | pass seconds => cases hstep; exact hframe rfl rfl rfl rfl
  | emit k e =>
    obtain ⟨bridge, -, rfl⟩ := Option.map_eq_some_iff.mp hstep
    exact hframe rfl rfl rfl rfl
  | report e =>
    simp only [ProtonWorker.step, Option.ite_none_right_eq_some] at hstep
    obtain ⟨-, hstep⟩ := hstep
    cases hstep
    exact hframe rfl rfl rfl rfl
  | loseStream kept =>
    simp only [ProtonWorker.step, Option.ite_none_right_eq_some] at hstep
    obtain ⟨-, hstep⟩ := hstep
    cases hstep
    exact hframe rfl rfl rfl rfl
  | die kept =>
    simp only [ProtonWorker.step, Option.ite_none_right_eq_some] at hstep
    obtain ⟨-, hstep⟩ := hstep
    cases hstep
    split <;> exact hframe rfl rfl rfl rfl
  | gone u =>
    simp only [ProtonWorker.step, Option.ite_none_right_eq_some] at hstep
    obtain ⟨-, hstep⟩ := hstep
    cases hstep
    have ha := h.accounts
    exact ⟨⟨ha.slot, fun k op hop => { ha.rows k op hop with }, ha.links⟩, h.journal, h.recovery⟩
  | handOver =>
    simp only [ProtonWorker.step, State.handOver] at hstep
    split at hstep
    · cases hstep
    · split at hstep
      · cases hstep
      · cases hstep
        exact hframe rfl rfl rfl rfl
  | deliver i n =>
    obtain ⟨w, -, rfl⟩ := Option.map_eq_some_iff.mp hstep
    exact Wf.onEvent (hframe rfl rfl rfl rfl)

theorem Wf.init (h : ProtonWorker.initial s) : s.Wf := by
  obtain ⟨ha, hj, -, -, -, hr, -⟩ := h
  refine ⟨ha ▸ ?_, hj ▸ ?_, by simp [hr]⟩
  · constructor <;> simp
  · constructor <;> simp

end State

theorem wf_invariant (cfg : Config) : (system cfg).Invariant TransitionSystem.anyStep State.Wf where
  init := State.Wf.init
  step h _ hstep := h.step hstep

/-- **One sign-in is under way at a time**, a committed one is connected and out of the slot, and no link waits for the removal of its user, in
memory or in the journal. -/
theorem one_sign_in (cfg : Config) (s : State) (h : (system cfg).Reachable s) :
    (∀ id id' op op', s.accounts.operations.lookup id = some op → s.accounts.operations.lookup id' = some op' →
      op.state.active = true → op'.state.active = true → id = id') ∧
    (∀ id op, s.accounts.operations.lookup id = some op → op.committed = true →
      op.state = .connected ∧ s.accounts.slot ≠ some id) ∧
    (∀ u email g, s.accounts.links.lookup (u, email) = some g → s.accounts.pendingRemovals.lookup u = none) ∧
    ∀ u email g, s.journal.links.lookup (u, email) = some g → s.journal.pendingRemovals.lookup u = none := by
  obtain ⟨ha, hj, -⟩ := (wf_invariant cfg).reachable h
  refine ⟨fun id id' op op' hop hop' hact hact' => ?_, fun id op hop hc => ?_, ha.links, hj.links⟩
  · exact Option.some.inj ((ha.active hop hact).symm.trans (ha.active hop' hact'))
  · have hstate := ha.committed hop hc
    exact ⟨hstate, fun hslot => (ha.rows id op hop).slot hslot hstate⟩

theorem one_sign_in_committed : ∃ s : State, ∃ op, s.accounts.operations.lookup "l" = some op ∧ op.state = .connected ∧
    s.accounts.slot ≠ some "l" := by
  have htrace : ((system {}).exec TransitionSystem.anyStep (fresh []) [.start "l" "l@x" {}, .emit 0 (.finished "u"), .handOver,
      .deliver 0 { getUser := fun _ => some ⟨"u", ["l@x"], true, true⟩ }, .commit "l" "u" "g" none, .start "b" "b@x" {}]).any
      (fun s => (s.accounts.operations.lookup "l").any (·.committed)) = true := by
    decide +kernel
  obtain ⟨s, hs, hp⟩ := TransitionSystem.reaches_of_exec fresh_init htrace
  obtain ⟨op, hop, hc⟩ := (Option.any_eq_true _ _).mp hp
  exact ⟨s, op, hop, (one_sign_in {} s hs).2.1 "l" op hop hc⟩

end MailExpert.ProtonWorker
