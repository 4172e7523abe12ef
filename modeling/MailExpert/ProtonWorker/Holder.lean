import MailExpert.ProtonWorker.Slot

/-!
# The slot's holder

How each method changes the slot and the operation that holds it: it keeps both, with the user, the mark and the end that
the operation had, or it frees the slot of an operation that was being checked (`Accounts.Settles`). What a restart of
Bridge does to the operations is said apart (`Accounts.Rows`).
-/

namespace MailExpert.ProtonWorker

/-- The operation is no nearer to a sign-in, and marked only as it was. -/
structure Operation.Still (op op' : Operation) : Prop where
  userId : op'.userId = op.userId
  checking : op'.state = .checking → op.state = .checking
  marked : op'.reconcile = true → op.reconcile = true ∧ op'.endedAt = op.endedAt

theorem Operation.Still.refl (op : Operation) : op.Still op := ⟨rfl, fun h => h, fun h => ⟨h, rfl⟩⟩

theorem Operation.Still.trans {op op' op'' : Operation} (h : op.Still op') (h' : op'.Still op'') : op.Still op'' where
  userId := h'.userId.trans h.userId
  checking hc := h.checking (h'.checking hc)
  marked hm := ⟨(h.marked (h'.marked hm).1).1, (h'.marked hm).2.trans (h.marked (h'.marked hm).1).2⟩

namespace Accounts

variable {a b c : Accounts} {now : Nat} {id k : OpId} {op : Operation} {u : UserId}

/-- The slot stays as it is, and so does its operation. -/
structure Keeps (a b : Accounts) : Prop where
  slot : b.slot = a.slot
  kept : a.holder = none ∧ b.holder = none ∨ ∃ op op', a.holder = some op ∧ b.holder = some op' ∧ op.Still op'

/-- The slot stays, or an operation that was being checked gives it up. -/
def Settles (a b : Accounts) : Prop := a.Keeps b ∨ b.slot = none ∧ ∀ op, a.holder = some op → op.state = .checking

theorem holder_none (h : a.slot = none) : a.holder = none := by simp [holder, h]

theorem holder_of_slot {c : OpId} (h : a.slot = some c) : a.holder = a.operations.lookup c := by simp [holder, h]

theorem Keeps.of_eq (hops : b.operations = a.operations) (hslot : b.slot = a.slot) : a.Keeps b := by
  have hholder : b.holder = a.holder := by rw [Accounts.holder, Accounts.holder, hops, hslot]
  refine ⟨hslot, ?_⟩
  rw [hholder]
  cases hop : a.holder with
  | none => exact .inl ⟨rfl, rfl⟩
  | some op => exact .inr ⟨op, op, rfl, rfl, .refl op⟩

theorem Keeps.refl (a : Accounts) : a.Keeps a := .of_eq rfl rfl

theorem Keeps.trans (h : a.Keeps b) (h' : b.Keeps c) : a.Keeps c := by
  refine ⟨h'.slot.trans h.slot, ?_⟩
  rcases h.kept with ⟨ha, hb⟩ | ⟨op, op', ha, hb, hs⟩
  · rcases h'.kept with ⟨-, hc⟩ | ⟨op, op', hb', -⟩
    · exact .inl ⟨ha, hc⟩
    · simp [hb] at hb'
  · rcases h'.kept with ⟨hb', -⟩ | ⟨op₁, op₂, hb', hc, hs'⟩
    · simp [hb] at hb'
    · obtain rfl : op' = op₁ := Option.some.inj (hb.symm.trans hb')
      exact .inr ⟨op, op₂, ha, hc, hs.trans hs'⟩

theorem Settles.trans (h : a.Settles b) (h' : b.Settles c) : a.Settles c := by
  rcases h with h | ⟨hslot, hcheck⟩
  · rcases h' with h' | ⟨hslot, hcheck⟩
    · exact .inl (h.trans h')
    · refine .inr ⟨hslot, fun op hop => ?_⟩
      rcases h.kept with ⟨ha, -⟩ | ⟨op₁, op', ha, hb, hs⟩
      · simp [hop] at ha
      · obtain rfl : op = op₁ := Option.some.inj (hop.symm.trans ha)
        exact hs.checking (hcheck op' hb)
  · refine .inr ⟨?_, hcheck⟩
    rcases h' with h' | ⟨hslot', -⟩
    · exact h'.slot.trans hslot
    · exact hslot'

theorem Settles.slot (h : a.Settles b) : b.slot = a.slot ∨ b.slot = none := h.imp (fun h => h.slot) fun h => h.1

theorem Keeps.modify {f : Operation → Operation} (hf : ∀ op, a.slot = some id → a.operations.lookup id = some op → op.Still (f op)) :
    a.Keeps (a.modify id f) := by
  refine ⟨rfl, ?_⟩
  cases hslot : a.slot with
  | none => exact .inl ⟨holder_none hslot, holder_none hslot⟩
  | some c =>
    have hb : (a.modify id f).holder = (a.modify id f).operations.lookup c := holder_of_slot hslot
    rw [hb, holder_of_slot hslot, lookup_modify]
    by_cases hc : c = id
    · subst hc
      rw [if_pos rfl]
      cases hop : a.operations.lookup c with
      | none => exact .inl ⟨rfl, rfl⟩
      | some op => exact .inr ⟨op, f op, rfl, rfl, hf op hslot hop⟩
    · rw [if_neg hc]
      cases hop : a.operations.lookup c with
      | none => exact .inl ⟨rfl, rfl⟩
      | some op => exact .inr ⟨op, op, rfl, rfl, .refl op⟩

theorem Keeps.handOver {ended : Option OpId} : a.Keeps (a.handOver u ended).1 := by
  refine ⟨rfl, ?_⟩
  cases hslot : a.slot with
  | none => exact .inl ⟨holder_none hslot, holder_none hslot⟩
  | some c =>
    have hb : (a.handOver u ended).1.holder = (a.handOver u ended).1.operations.lookup c := holder_of_slot hslot
    rw [hb, holder_of_slot hslot]
    cases hop : a.operations.lookup c with
    | none => exact .inl ⟨rfl, by simp [Accounts.handOver, hop]⟩
    | some op =>
      refine .inr ⟨op, _, rfl, lookup_handOver_some.mpr ⟨op, hop, rfl⟩, ?_⟩
      split
      · exact ⟨rfl, fun h => h, fun h => ⟨h, rfl⟩⟩
      · exact .refl op

theorem Keeps.beginRemoval {reason : Reason} : a.Keeps (a.beginRemoval now u reason) := .of_eq rfl rfl

theorem Keeps.dropAttemptUser : a.Keeps (a.dropAttemptUser now id) := by
  unfold Accounts.dropAttemptUser
  split
  · exact .refl a
  · split
    · split
      · exact .refl a
      · split
        · exact .handOver
        · exact Keeps.handOver.trans .beginRemoval
    · exact .refl a

/-- An operation that was being checked may give the slot up. -/
theorem Keeps.release (h : a.Keeps b) (hcheck : ∀ op, a.operations.lookup id = some op → op.state = .checking) :
    a.Settles (b.release id) := by
  unfold Accounts.release
  split
  next hslot =>
    refine .inr ⟨rfl, fun op hop => ?_⟩
    obtain ⟨c, hc, hop⟩ := holder_eq_some.mp hop
    obtain rfl : id = c := Option.some.inj (hslot.symm.trans (h.slot.trans hc))
    exact hcheck op hop
  next => exact .inl h

theorem Keeps.endOp {state : OpState} {code : Option ErrorCode} (hstate : state ≠ .checking)
    (hmark : ∀ op, a.slot = some id → a.operations.lookup id = some op → op.reconcile = false) : a.Keeps (a.endOp now id state code) :=
  .modify fun op hslot hop => ⟨rfl, fun h => absurd h hstate, fun h => by simp [hmark op hslot hop] at h⟩

theorem Settles.endDropRelease {state : OpState} {code : Option ErrorCode} (h : a.Wf) (hstate : state ≠ .checking)
    (hcheck : ∀ op, a.operations.lookup id = some op → op.state = .checking) :
    a.Settles (((a.endOp now id state code).dropAttemptUser now id).release id) := by
  refine Keeps.release ((Keeps.endOp hstate fun op _ hop => ?_).trans .dropAttemptUser) hcheck
  exact h.not_marked_of_active hop (by rw [hcheck op hop]; rfl)

theorem Settles.stopAttempt {state : OpState} {code : Option ErrorCode} (h : a.Wf) (hstate : state ≠ .checking)
    (hact : ∀ op, a.operations.lookup id = some op → op.state.active = true) : a.Settles (a.stopAttempt now id state code) := by
  unfold Accounts.stopAttempt
  split
  · exact .inl (.refl a)
  next op hop =>
    split
    next hcheck =>
      exact .endDropRelease h hstate fun op' hop' => Option.some.inj (hop'.symm.trans hop) ▸ hcheck
    next => exact .inl (.endOp hstate fun op' _ hop' => h.not_marked_of_active hop' (hact op' hop'))

theorem Settles.reconcile {user? : Option User} (h : a.Wf)
    (hcheck : ∀ op, a.operations.lookup id = some op → op.state = .checking) : a.Settles (a.reconcile now id user?) := by
  unfold Accounts.reconcile
  split
  next op user hop =>
    split
    · exact .endDropRelease h (by decide) hcheck
    · split
      · exact .inl (.refl a)
      · split
        · refine Keeps.release (.modify fun op _ hop => ?_) hcheck
          have hmark := h.not_marked_of_active hop (by rw [hcheck op hop]; rfl)
          exact ⟨rfl, fun _ => hcheck op hop, fun hm => by simp [hmark] at hm⟩
        · exact .inl (.modify fun op _ _ => ⟨rfl, fun h => h, fun hm => ⟨hm, rfl⟩⟩)
  next => exact .inl (.refl a)

theorem Settles.onUserChanged {users? : Option (List UserId)} {getUser : OpId → Option User} (h : a.Wf) :
    a.Settles (a.onUserChanged now u users? getUser) := by
  unfold Accounts.onUserChanged
  refine (List.foldlRecOn (motive := fun b : Accounts => b.Wf ∧ a.Settles b) _ _ ?_ fun b hb k _ => ?_).2
  · split
    · exact ⟨h.eraseRemoval, .inl (.of_eq rfl rfl)⟩
    · exact ⟨h, .inl (.refl a)⟩
  · split
    next op hop =>
      split
      next hstate =>
        simp only [Bool.and_eq_true, decide_eq_true_eq] at hstate
        have hcheck : ∀ op', b.operations.lookup k = some op' → op'.state = .checking := fun op' hop' =>
          Option.some.inj (hop'.symm.trans hop) ▸ hstate.1
        exact ⟨hb.1.reconcile hcheck, hb.2.trans (.reconcile hb.1 hcheck)⟩
      next => exact hb
    next => exact hb

theorem Keeps.retryRemoval {users? : Option (List UserId)} : a.Keeps (a.retryRemoval now u users?) := by
  unfold Accounts.retryRemoval
  split
  · split
    · exact .beginRemoval
    · exact .of_eq rfl rfl
  · exact .refl a

theorem Keeps.removalTimers {canRecover : Bool} {lists : UserId → Option (List UserId)} :
    a.Keeps (a.removalTimers now canRecover lists).1 := by
  unfold Accounts.removalTimers
  refine List.foldlRecOn (motive := fun p : Accounts × Bool => a.Keeps p.1) _ _ (.refl a) fun p hp u _ => ?_
  have hset : ∀ item, p.1.Keeps (p.1.setRemoval u item) := fun item => .of_eq rfl rfl
  split
  · exact hp
  · split
    · exact hp
    · split
      · split
        · split
          · exact hp.trans (hset _)
          · exact hp
        · exact hp.trans ((hset _).trans .retryRemoval)
      · exact hp.trans .retryRemoval

theorem Settles.expire {ttl : Nat} (h : a.Wf) : a.Settles (a.expire now ttl) := by
  unfold Accounts.expire
  refine (List.foldlRecOn (motive := fun b : Accounts => b.Wf ∧ a.Settles b) _ _ ⟨h, .inl (.refl a)⟩ fun b hb k _ => ?_).2
  split
  next op hop =>
    have huniq : ∀ op', b.operations.lookup k = some op' → op' = op := fun op' hop' => Option.some.inj (hop'.symm.trans hop)
    split
    · split
      next hact =>
        have hact' : ∀ op', b.operations.lookup k = some op' → op'.state.active = true := fun op' hop' => huniq op' hop' ▸ hact
        exact ⟨hb.1.stopAttempt hact' (by decide), hb.2.trans (.stopAttempt hb.1 (by decide) hact')⟩
      next =>
        split
        next hcon =>
          simp only [Bool.and_eq_true, Bool.not_eq_true', decide_eq_true_eq] at hcon
          refine ⟨(hb.1.endOp (fun op' hop' => huniq op' hop' ▸ hcon.2) (by decide)).dropAttemptUser,
            hb.2.trans (.inl ((Keeps.endOp (by decide) fun op' hslot hop' => ?_).trans .dropAttemptUser))⟩
          exact absurd (huniq op' hop' ▸ hcon.1) ((hb.1.rows k op' hop').slot hslot)
        next => exact hb
    · exact hb
  next => exact hb

theorem Keeps.prune {ttl : Nat} : a.Keeps (a.prune now ttl) := by
  refine ⟨rfl, ?_⟩
  cases hslot : a.slot with
  | none => exact .inl ⟨holder_none hslot, holder_none hslot⟩
  | some c =>
    have hb : (a.prune now ttl).holder = (a.prune now ttl).operations.lookup c := holder_of_slot hslot
    rw [hb, holder_of_slot hslot, Accounts.prune, Table.lookup_delete]
    cases hop : a.operations.lookup c with
    | none => exact .inl ⟨rfl, rfl⟩
    | some op => exact .inr ⟨op, op, rfl, by simp [hslot], .refl op⟩

/-! ## A restart of Bridge -/

/-- The operations differ only in marks that are gone, and in when they ended. -/
def Rows (a b : Accounts) : Prop :=
  ∀ id op', b.operations.lookup id = some op' → ∃ op, a.operations.lookup id = some op ∧
    op' = { op with reconcile := op'.reconcile, endedAt := op'.endedAt } ∧ (op'.reconcile = true → op.reconcile = true)

theorem Rows.of_eq (hops : b.operations = a.operations) : a.Rows b := fun _ op' hop' => ⟨op', hops ▸ hop', rfl, fun h => h⟩

theorem Rows.trans (h : a.Rows b) (h' : b.Rows c) : a.Rows c := fun id op'' hop'' => by
  obtain ⟨op', hop', heq', hmark'⟩ := h' id op'' hop''
  obtain ⟨op, hop, heq, hmark⟩ := h id op' hop'
  refine ⟨op, hop, ?_, fun hm => hmark (hmark' hm)⟩
  rw [heq', heq]

theorem Rows.modify {f : Operation → Operation}
    (hf : ∀ op, f op = { op with reconcile := (f op).reconcile, endedAt := (f op).endedAt } ∧
      ((f op).reconcile = true → op.reconcile = true)) : a.Rows (a.modify id f) := fun k op' hop' => by
  obtain ⟨rfl, op, hop, rfl⟩ | ⟨-, hop⟩ := lookup_modify_some.mp hop'
  · exact ⟨op, hop, hf op⟩
  · exact ⟨op', hop, rfl, fun h => h⟩

theorem beginRemovals_operations {users : List UserId} {reason : Reason} :
    (users.foldl (fun a u => a.beginRemoval now u reason) a).operations = a.operations ∧
      (users.foldl (fun a u => a.beginRemoval now u reason) a).slot = a.slot :=
  List.foldlRecOn (motive := fun b : Accounts => b.operations = a.operations ∧ b.slot = a.slot) users _ ⟨rfl, rfl⟩
    fun _ hb _ _ => hb

theorem Rows.reconcileOrphans {users? : Option (List UserId)} :
    a.Rows (a.reconcileOrphans now id users?).1 ∧ (a.reconcileOrphans now id users?).1.slot = a.slot := by
  unfold Accounts.reconcileOrphans
  split
  · exact ⟨Rows.trans (.of_eq beginRemovals_operations.1) (.modify fun op => ⟨rfl, fun h => by cases h⟩), beginRemovals_operations.2⟩
  · exact ⟨.of_eq rfl, rfl⟩

theorem Rows.reconcileMarked {lists : OpId → Option (List UserId)} :
    a.Rows (a.reconcileMarked now lists).1 ∧ (a.reconcileMarked now lists).1.slot = a.slot := by
  unfold Accounts.reconcileMarked
  refine List.foldlRecOn (motive := fun p : Accounts × Bool => a.Rows p.1 ∧ p.1.slot = a.slot) _ _ ⟨.of_eq rfl, rfl⟩
    fun p hp k _ => ?_
  split
  · split
    · exact ⟨hp.1.trans Rows.reconcileOrphans.1, Rows.reconcileOrphans.2.trans hp.2⟩
    · exact hp
  · exact hp

theorem Rows.reconcileAll {lists : OpId → Option (List UserId)} : a.Rows (a.reconcileAll now lists).1 := by
  have hm := (@Rows.reconcileMarked a now lists).1
  unfold Accounts.reconcileAll
  dsimp only
  split
  · split
    · exact hm.trans (.of_eq rfl)
    · exact hm
  · exact hm
  · split
    · exact hm.trans (.of_eq rfl)
    · exact hm.trans (.modify fun op => ⟨rfl, fun h => h⟩)

/-- An operation whose slot is freed by a reconciliation has ended. -/
theorem reconcileAll_slot {lists : OpId → Option (List UserId)} (h : a.Wf) : (a.reconcileAll now lists).1.slot = a.slot ∨
    (a.reconcileAll now lists).1.slot = none ∧ ∀ op, a.holder = some op → op.state.terminal = true := by
  have hwf := @Wf.reconcileMarked a now lists h
  obtain ⟨hrows, hslot⟩ := @Rows.reconcileMarked a now lists
  have hterm : (∀ op', (a.reconcileMarked now lists).1.holder = some op' → op'.state.terminal = true) →
      ∀ op, a.holder = some op → op.state.terminal = true := fun hall op hop => by
    obtain ⟨id, hid, hop⟩ := holder_eq_some.mp hop
    obtain ⟨op', hop'⟩ := hwf.slot id (hslot.trans hid)
    obtain ⟨op₀, h₀, heq, -⟩ := hrows id op' hop'
    obtain rfl : op₀ = op := Option.some.inj (h₀.symm.trans hop)
    have := hall op' (holder_eq_some.mpr ⟨id, hslot.trans hid, hop'⟩)
    rw [heq] at this
    exact this
  unfold Accounts.reconcileAll
  dsimp only
  split
  next hnone =>
    split
    · exact .inr ⟨rfl, hterm fun op' hop' => by simp [hnone] at hop'⟩
    · exact .inl hslot
  next => exact .inl hslot
  next id op' hid hop' =>
    split
    next hfree =>
      simp only [Bool.and_eq_true] at hfree
      refine .inr ⟨rfl, hterm fun op₁ hop₁ => ?_⟩
      obtain rfl : op₁ = op' := Option.some.inj (hop₁.symm.trans hop')
      exact hfree.2
    next => exact .inl hslot

theorem retryRemoval_operations {users? : Option (List UserId)} :
    (a.retryRemoval now u users?).operations = a.operations ∧ (a.retryRemoval now u users?).slot = a.slot := by
  unfold retryRemoval
  split
  · split <;> exact ⟨rfl, rfl⟩
  · exact ⟨rfl, rfl⟩

end Accounts

namespace State

variable {s : State} {n : Native}

theorem restarted_rows : s.accounts.Rows (s.restarted n) ∧
    (s.restarted n).slot = (s.accounts.reconcileAll s.now fun id => s.list n (.orphans id)).1.slot := by
  unfold restarted
  refine List.foldlRecOn (motive := fun b : Accounts => s.accounts.Rows b ∧
    b.slot = (s.accounts.reconcileAll s.now fun id => s.list n (.orphans id)).1.slot) _ _ ⟨.reconcileAll, rfl⟩ fun b hb u _ => ?_
  exact ⟨hb.1.trans (.of_eq Accounts.retryRemoval_operations.1), Accounts.retryRemoval_operations.2.trans hb.2⟩

theorem restarted_slot (h : s.accounts.Wf) : (s.restarted n).slot = s.accounts.slot ∨
    (s.restarted n).slot = none ∧ ∀ op, s.accounts.holder = some op → op.state.terminal = true := by
  rw [restarted_rows.2]
  exact Accounts.reconcileAll_slot h

end State

end MailExpert.ProtonWorker
