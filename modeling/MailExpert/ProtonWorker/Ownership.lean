import MailExpert.ProtonWorker.Holder

/-!
# Who answers for a native user

A user of Bridge is answered for (`Accounts.answered`) by a link, by a pending removal or by the live attempt that created it,
unless it was there before the worker's first attempt. `Accounts.Serves` says what the methods do about that: a user that was
answered for still is, or the operation in the slot keeps it; a mark for a reconcile stays; and the slot is given up only by an
operation that knows its user.
-/

namespace MailExpert.ProtonWorker

/-- A live attempt that created the user, which goes with it if it ends without a commit. -/
def Operation.claims (op : Operation) (u : UserId) : Bool :=
  (op.state.active || op.state = .connected) && !op.committed && op.createdByAttempt && op.userId = some u

theorem Operation.claims_eq_true {op : Operation} {u : UserId} : op.claims u = true ↔
    (op.state.active = true ∨ op.state = .connected) ∧ op.committed = false ∧ op.createdByAttempt = true ∧ op.userId = some u := by
  simp [claims, and_assoc]

/-- The operation goes on or ends. -/
structure Operation.Aged (now : Nat) (op op' : Operation) : Prop where
  userId : op'.userId = op.userId
  createdAt : op'.createdAt = op.createdAt
  endedAt : op'.endedAt = op.endedAt ∨ op'.endedAt = some now
  checking : op'.state = .checking → op.state = .checking
  active : op'.state.active = true → op.state.active = true

theorem Operation.Aged.refl {now : Nat} (op : Operation) : op.Aged now op := ⟨rfl, rfl, .inl rfl, fun h => h, fun h => h⟩

theorem Operation.Aged.trans {now : Nat} {op op' op'' : Operation} (h : op.Aged now op') (h' : op'.Aged now op'') :
    op.Aged now op'' where
  userId := h'.userId.trans h.userId
  createdAt := h'.createdAt.trans h.createdAt
  endedAt := by
    rcases h'.endedAt with heq | heq
    · exact heq ▸ h.endedAt
    · exact .inr heq
  checking hc := h.checking (h'.checking hc)
  active ha := h.active (h'.active ha)

theorem Operation.Aged.ended {now : Nat} {op : Operation} {state : OpState} {code : Option ErrorCode} (hstate : state.active = false) :
    op.Aged now { op with state := state, errorCode := code, endedAt := some now } where
  userId := rfl
  createdAt := rfl
  endedAt := .inr rfl
  checking h := by
    have h : state = .checking := h
    rw [h] at hstate
    cases hstate
  active h := by
    have h : state.active = true := h
    rw [h] at hstate
    cases hstate

namespace Accounts

section

variable (a : Accounts) (initial : List UserId) (u : UserId)

def answered : Bool :=
  initial.contains u || a.linked u || (a.pendingRemovals.lookup u).isSome || a.operations.entries.any fun e => e.2.claims u

/-- The user is answered for, or the operation in the slot created it. -/
def kept : Bool := a.answered initial u || a.holder.any fun op => op.userId = some u && op.createdByAttempt

end

variable {a b c : Accounts} {now : Nat} {id k : OpId} {op : Operation} {u v : UserId} {users initial : List UserId}

theorem answered_eq_true : a.answered initial u = true ↔ u ∈ initial ∨ a.linked u = true ∨
    (a.pendingRemovals.lookup u).isSome = true ∨ ∃ id op, a.operations.lookup id = some op ∧ op.claims u = true := by
  simp only [answered, Bool.or_eq_true, List.contains_iff_mem, or_assoc]
  refine or_congr .rfl (or_congr .rfl (or_congr .rfl ?_))
  rw [List.any_eq_true]
  constructor
  · rintro ⟨⟨id, op⟩, hmem, h⟩
    exact ⟨id, op, Table.mem_entries.mp hmem, h⟩
  · rintro ⟨id, op, hop, h⟩
    exact ⟨⟨id, op⟩, Table.mem_entries.mpr hop, h⟩

theorem kept_eq_true : a.kept initial u = true ↔ a.answered initial u = true ∨
    ∃ op, a.holder = some op ∧ op.userId = some u ∧ op.createdByAttempt = true := by
  simp [kept, Option.any_eq_true]

theorem kept_of_answered (h : a.answered initial u = true) : a.kept initial u = true := kept_eq_true.mpr (.inl h)

/-- What still answers for a user when operations, links and removals change. -/
theorem answered_mono (h : a.answered initial u = true) (hlinks : a.linked u = true → b.answered initial u = true)
    (hpending : (a.pendingRemovals.lookup u).isSome = true → b.answered initial u = true)
    (hops : ∀ id op, a.operations.lookup id = some op → op.claims u = true → b.answered initial u = true) :
    b.answered initial u = true := by
  rcases answered_eq_true.mp h with hu | hu | hu | ⟨id, op, hop, hu⟩
  · exact answered_eq_true.mpr (.inl hu)
  · exact hlinks hu
  · exact hpending hu
  · exact hops id op hop hu

/-- The methods keep what answers for the users of Bridge. -/
structure Serves (users initial : List UserId) (now : Nat) (a b : Accounts) : Prop where
  kept : ∀ u ∈ users, a.kept initial u = true → b.kept initial u = true
  marks : a.reconcilePending = true → b.reconcilePending = true
  rows : ∀ id op', b.operations.lookup id = some op' → ∃ op, a.operations.lookup id = some op ∧ op.Aged now op'
  slot : b.slot = a.slot ∨ b.slot = none
  holder : ∀ op, a.holder = some op → (∃ op', b.holder = some op') ∨ b.slot = none ∧ op.userId.isSome = true

theorem Serves.refl (a : Accounts) : a.Serves users initial now a where
  kept _ _ h := h
  marks h := h
  rows _ op' hop' := ⟨op', hop', .refl op'⟩
  slot := .inl rfl
  holder op hop := .inl ⟨op, hop⟩

theorem Serves.trans (h : a.Serves users initial now b) (h' : b.Serves users initial now c) : a.Serves users initial now c where
  kept u hu hk := h'.kept u hu (h.kept u hu hk)
  marks hm := h'.marks (h.marks hm)
  rows id op'' hop'' := by
    obtain ⟨op', hop', haged'⟩ := h'.rows id op'' hop''
    obtain ⟨op, hop, haged⟩ := h.rows id op' hop'
    exact ⟨op, hop, haged.trans haged'⟩
  slot := by
    rcases h'.slot with heq | heq
    · exact heq ▸ h.slot
    · exact .inr heq
  holder op hop := by
    rcases h.holder op hop with ⟨op', hop'⟩ | ⟨hnone, huser⟩
    · rcases h'.holder op' hop' with hc | ⟨hnone, huser⟩
      · exact .inl hc
      · refine .inr ⟨hnone, ?_⟩
        obtain ⟨id, hid, hlookup'⟩ := holder_eq_some.mp hop'
        obtain ⟨id', hid', hlookup⟩ := holder_eq_some.mp hop
        rcases h.slot with heq | heq
        · obtain rfl : id' = id := Option.some.inj (hid'.symm.trans (heq.symm.trans hid))
          obtain ⟨op₀, h₀, haged⟩ := h.rows id' op' hlookup'
          obtain rfl : op₀ = op := Option.some.inj (h₀.symm.trans hlookup)
          exact haged.userId ▸ huser
        · simp [heq] at hid
    · refine .inr ⟨?_, huser⟩
      rcases h'.slot with heq | heq
      · exact heq.trans hnone
      · exact heq

/-- Removals and links change, and nobody that is answered for is forgotten. -/
theorem Serves.of_operations (hops : b.operations = a.operations) (hslot : b.slot = a.slot)
    (hlinks : ∀ u ∈ users, a.linked u = true → b.answered initial u = true)
    (hpending : ∀ u ∈ users, (a.pendingRemovals.lookup u).isSome = true → b.answered initial u = true) :
    a.Serves users initial now b := by
  have hholder : b.holder = a.holder := by rw [Accounts.holder, Accounts.holder, hops, hslot]
  refine ⟨fun u hu hk => ?_, fun hm => ?_, fun id op' hop' => ⟨op', hops ▸ hop', .refl op'⟩, .inl hslot, fun op hop => ?_⟩
  · rcases kept_eq_true.mp hk with hk | hk
    · refine kept_of_answered (answered_mono hk (hlinks u hu) (hpending u hu) fun id op hop hc => ?_)
      exact answered_eq_true.mpr (.inr (.inr (.inr ⟨id, op, hops ▸ hop, hc⟩)))
    · exact kept_eq_true.mpr (.inr (hholder ▸ hk))
  · rw [reconcilePending, hops]
    exact hm
  · exact .inl ⟨op, hholder ▸ hop⟩

theorem answered_of_linked (h : a.linked u = true) : a.answered initial u = true := answered_eq_true.mpr (.inr (.inl h))

theorem answered_of_pending (h : (a.pendingRemovals.lookup u).isSome = true) : a.answered initial u = true :=
  answered_eq_true.mpr (.inr (.inr (.inl h)))

theorem answered_of_claims (hop : a.operations.lookup id = some op) (h : op.claims u = true) : a.answered initial u = true :=
  answered_eq_true.mpr (.inr (.inr (.inr ⟨id, op, hop, h⟩)))

/-- Only removals change, and only those of users that Bridge does not hold are taken off the list. -/
structure Removes (users : List UserId) (a b : Accounts) : Prop where
  operations : b.operations = a.operations
  slot : b.slot = a.slot
  links : b.links = a.links
  pending : ∀ u ∈ users, (a.pendingRemovals.lookup u).isSome = true → (b.pendingRemovals.lookup u).isSome = true

theorem Removes.refl (a : Accounts) : a.Removes users a := ⟨rfl, rfl, rfl, fun _ _ h => h⟩

theorem Removes.trans (h : a.Removes users b) (h' : b.Removes users c) : a.Removes users c :=
  ⟨h'.operations.trans h.operations, h'.slot.trans h.slot, h'.links.trans h.links, fun u hu hp => h'.pending u hu (h.pending u hu hp)⟩

theorem Removes.answered (h : a.Removes users b) (hu : u ∈ users) (ha : a.answered initial u = true) : b.answered initial u = true := by
  refine answered_mono ha (fun hl => answered_of_linked ?_) (fun hp => answered_of_pending (h.pending u hu hp)) fun id op hop hc => ?_
  · rw [linked, h.links]
    exact hl
  · exact answered_of_claims (h.operations ▸ hop) hc

theorem Removes.serves (h : a.Removes users b) : a.Serves users initial now b :=
  .of_operations h.operations h.slot (fun _ hu hl => h.answered hu (answered_of_linked hl))
    fun _ hu hp => h.answered hu (answered_of_pending hp)

theorem Removes.beginRemoval {reason : Reason} : a.Removes users (a.beginRemoval now u reason) :=
  ⟨rfl, rfl, rfl, fun v _ hv => by
    have := @beginRemoval_lookup a now u v reason
    rw [hv, Bool.or_true] at this
    exact this⟩

theorem Removes.setRemoval {item : Removal} : a.Removes users (a.setRemoval u item) :=
  ⟨rfl, rfl, rfl, fun v _ hv => by
    show ((a.pendingRemovals.insert u item).lookup v).isSome = true
    rw [Table.lookup_insert']
    split
    · rfl
    · exact hv⟩

theorem Removes.eraseRemoval (hu : u ∉ users) : a.Removes users { a with pendingRemovals := a.pendingRemovals.erase u } :=
  ⟨rfl, rfl, rfl, fun v hv hp => by
    show ((a.pendingRemovals.erase u).lookup v).isSome = true
    rw [Table.lookup_erase', if_neg fun heq : v = u => hu (heq ▸ hv)]
    exact hp⟩

theorem Removes.retryRemoval {users? : Option (List UserId)} (hl : ∀ l, users? = some l → l = users) :
    a.Removes users (a.retryRemoval now u users?) := by
  unfold Accounts.retryRemoval
  split
  next _ l _ =>
    split
    · exact .beginRemoval
    next hnot => exact .eraseRemoval fun hu => hnot (by rw [hl l rfl]; simpa using hu)
  next => exact .refl a

theorem Removes.removalTimers {canRecover : Bool} {lists : UserId → Option (List UserId)}
    (hl : ∀ u l, lists u = some l → l = users) : a.Removes users (a.removalTimers now canRecover lists).1 := by
  unfold Accounts.removalTimers
  refine List.foldlRecOn (motive := fun p : Accounts × Bool => a.Removes users p.1) _ _ (.refl a) fun p hp u _ => ?_
  split
  · exact hp
  · split
    · exact hp
    · split
      · split
        · split
          · exact hp.trans .setRemoval
          · exact hp
        · exact hp.trans (Removes.setRemoval.trans (.retryRemoval (hl u)))
      · exact hp.trans (.retryRemoval (hl u))

/-! ## Operations -/

theorem Serves.modify {f : Operation → Operation}
    (hf : ∀ op, a.operations.lookup id = some op → op.Aged now (f op) ∧ (op.reconcile = true → (f op).reconcile = true) ∧
      (op.createdByAttempt = true → (f op).createdByAttempt = true) ∧
      (a.slot = some id ∨ ∀ u, op.claims u = true → (a.modify id f).answered initial u = true)) :
    a.Serves users initial now (a.modify id f) := by
  have hrow : ∀ k op, a.operations.lookup k = some op →
      (a.modify id f).operations.lookup k = some (if k = id then f op else op) := fun k op hop => by
    rw [lookup_modify]
    split
    next heq => rw [← heq, hop]; rfl
    next => exact hop
  refine ⟨fun u hu hk => ?_, fun hm => ?_, fun k op' hop' => ?_, .inl rfl, fun op hop => ?_⟩
  · rcases kept_eq_true.mp hk with hk | ⟨op, hop, huser, hcreated⟩
    · rcases answered_eq_true.mp hk with hk | hk | hk | ⟨k, op, hop, hclaims⟩
      · exact kept_of_answered (answered_eq_true.mpr (.inl hk))
      · exact kept_of_answered (answered_of_linked hk)
      · exact kept_of_answered (answered_of_pending hk)
      · by_cases heq : k = id
        · subst heq
          obtain ⟨haged, -, hcreated, hslot | hf⟩ := hf op hop
          · obtain ⟨-, -, hc, huser⟩ := Operation.claims_eq_true.mp hclaims
            refine kept_eq_true.mpr (.inr ⟨f op, holder_eq_some.mpr ⟨k, hslot, ?_⟩, haged.userId.trans huser, hcreated hc⟩)
            rw [hrow k op hop, if_pos rfl]
          · exact kept_of_answered (hf u hclaims)
        · refine kept_of_answered (@answered_of_claims _ k op _ _ ?_ hclaims)
          rw [hrow k op hop, if_neg heq]
    · obtain ⟨k, hslot, hop⟩ := holder_eq_some.mp hop
      refine kept_eq_true.mpr (.inr ⟨_, holder_eq_some.mpr ⟨k, hslot, hrow k op hop⟩, ?_⟩)
      split
      next heq =>
        subst heq
        obtain ⟨haged, -, hc, -⟩ := hf op hop
        exact ⟨haged.userId.trans huser, hc hcreated⟩
      next => exact ⟨huser, hcreated⟩
  · obtain ⟨k, op, hop, hmark⟩ := reconcilePending_eq_true.mp hm
    refine reconcilePending_eq_true.mpr ⟨k, _, hrow k op hop, ?_⟩
    split
    next heq =>
      subst heq
      exact (hf op hop).2.1 hmark
    next => exact hmark
  · obtain ⟨rfl, op, hop, rfl⟩ | ⟨-, hop⟩ := lookup_modify_some.mp hop'
    · exact ⟨op, hop, (hf op hop).1⟩
    · exact ⟨op', hop, .refl op'⟩
  · obtain ⟨k, hslot, hop⟩ := holder_eq_some.mp hop
    exact .inl ⟨_, holder_eq_some.mpr ⟨k, hslot, hrow k op hop⟩⟩

/-- The operation answers for whom it answered for. -/
theorem Serves.modify_claims {f : Operation → Operation}
    (hf : ∀ op, a.operations.lookup id = some op → op.Aged now (f op) ∧ (op.reconcile = true → (f op).reconcile = true) ∧
      (op.createdByAttempt = true → (f op).createdByAttempt = true) ∧ ∀ u, op.claims u = true → (f op).claims u = true) :
    a.Serves users initial now (a.modify id f) :=
  .modify fun op hop => by
    obtain ⟨haged, hmark, hcreated, hclaims⟩ := hf op hop
    refine ⟨haged, hmark, hcreated, .inr fun u hc => @answered_of_claims _ id (f op) _ _ ?_ (hclaims u hc)⟩
    rw [lookup_modify, if_pos rfl, hop]
    rfl

theorem Serves.mark {p : Operation → Bool} :
    a.Serves users initial now (a.modify id fun op => if p op then { op with reconcile := true } else op) :=
  .modify_claims fun op _ => by
    split
    · exact ⟨⟨rfl, rfl, .inl rfl, fun h => h, fun h => h⟩, fun _ => rfl, fun h => h, fun _ hc => hc⟩
    · exact ⟨.refl op, fun h => h, fun h => h, fun _ hc => hc⟩

/-- What `handOver` makes of an operation. -/
theorem handOver_row {ended : Option OpId} (hop : a.operations.lookup k = some op) :
    ∃ op', (a.handOver u ended).1.operations.lookup k = some op' ∧
      op' = { op with createdByAttempt := op'.createdByAttempt } ∧ (op.createdByAttempt = true → op'.createdByAttempt = true) := by
  refine ⟨_, lookup_handOver_some.mpr ⟨op, hop, rfl⟩, ?_⟩
  split
  · exact ⟨rfl, fun _ => rfl⟩
  · exact ⟨rfl, fun h => h⟩

theorem answered_of_handOver {ended : Option OpId} (h : a.answered initial v = true) :
    (a.handOver u ended).1.answered initial v = true := by
  refine answered_mono h (fun hl => answered_of_linked hl) (fun hp => answered_of_pending hp) fun k op hop hclaims => ?_
  obtain ⟨op', hop', heq, hcreated⟩ := handOver_row hop
  obtain ⟨hstate, hcom, hc, huser⟩ := Operation.claims_eq_true.mp hclaims
  refine answered_of_claims hop' ?_
  rw [heq]
  exact Operation.claims_eq_true.mpr ⟨hstate, hcom, hcreated hc, huser⟩

theorem Serves.handOver {ended : Option OpId} : a.Serves users initial now (a.handOver u ended).1 := by
  have hrow : ∀ k op, a.operations.lookup k = some op → ∃ op', (a.handOver u ended).1.operations.lookup k = some op' ∧
      op' = { op with createdByAttempt := op'.createdByAttempt } ∧ (op.createdByAttempt = true → op'.createdByAttempt = true) :=
    fun k op hop => handOver_row hop
  refine ⟨fun v hv hk => ?_, fun hm => ?_, fun k op' hop' => ?_, .inl rfl, fun op hop => ?_⟩
  · rcases kept_eq_true.mp hk with hk | ⟨op, hop, huser, hcreated⟩
    · exact kept_of_answered (answered_of_handOver hk)
    · obtain ⟨k, hslot, hop⟩ := holder_eq_some.mp hop
      obtain ⟨op', hop', heq, hc⟩ := hrow k op hop
      refine kept_eq_true.mpr (.inr ⟨op', holder_eq_some.mpr ⟨k, hslot, hop'⟩, ?_, hc hcreated⟩)
      rw [heq]
      exact huser
  · obtain ⟨k, op, hop, hmark⟩ := reconcilePending_eq_true.mp hm
    obtain ⟨op', hop', heq, -⟩ := hrow k op hop
    refine reconcilePending_eq_true.mpr ⟨k, op', hop', ?_⟩
    rw [heq]
    exact hmark
  · obtain ⟨op, hop, heq⟩ := lookup_handOver hop'
    refine ⟨op, hop, ?_⟩
    rw [heq]
    exact ⟨rfl, rfl, .inl rfl, fun h => h, fun h => h⟩
  · obtain ⟨k, hslot, hop⟩ := holder_eq_some.mp hop
    obtain ⟨op', hop', -⟩ := hrow k op hop
    exact .inl ⟨op', holder_eq_some.mpr ⟨k, hslot, hop'⟩⟩

/-- An heir answers for the user. -/
theorem answered_handOver {ended : Option OpId} (h : (a.handOver u ended).2 = true) :
    (a.handOver u ended).1.answered initial u = true := by
  obtain ⟨⟨k, op⟩, hmem, hheir⟩ := List.any_eq_true.mp h
  have hop := Table.mem_entries.mp hmem
  have hrow : (a.handOver u ended).1.operations.lookup k = some { op with createdByAttempt := true } :=
    lookup_handOver_some.mpr ⟨op, hop, by rw [if_pos hheir]⟩
  refine answered_of_claims hrow ?_
  simp only [isHeir, Bool.and_eq_true, Bool.or_eq_true, decide_eq_true_eq, Bool.not_eq_true'] at hheir
  obtain ⟨⟨⟨-, hu⟩, hcom⟩, hstate⟩ := hheir
  exact Operation.claims_eq_true.mpr ⟨hstate, hcom, rfl, hu⟩

theorem Serves.dropAttemptUser : a.Serves users initial now (a.dropAttemptUser now id) := by
  unfold Accounts.dropAttemptUser
  split
  · exact .refl a
  · split
    · split
      · exact .refl a
      · split
        · exact .handOver
        · exact Serves.handOver.trans Removes.beginRemoval.serves
    · exact .refl a

theorem lookup_dropAttemptUser_self : (a.dropAttemptUser now id).operations.lookup id = a.operations.lookup id := by
  have hhand : ∀ u, (a.handOver u (some id)).1.operations.lookup id = a.operations.lookup id := fun u => by
    simp [handOver, isHeir]
  unfold Accounts.dropAttemptUser
  split
  · rfl
  · split
    · split
      · rfl
      · split
        · exact hhand _
        · exact hhand _
    · rfl

/-- The user that an ended attempt created is answered for by something else. -/
theorem answered_dropAttemptUser (hop : a.operations.lookup id = some op) (hcreated : op.createdByAttempt = true)
    (huser : op.userId = some u) : (a.dropAttemptUser now id).answered initial u = true := by
  unfold Accounts.dropAttemptUser
  rw [hop]
  dsimp only
  rw [hcreated, huser]
  dsimp only
  split
  next hlinked => exact answered_of_linked hlinked
  next =>
    split
    next hhand => exact answered_handOver hhand
    next =>
      refine answered_of_pending ?_
      rw [beginRemoval_lookup]
      simp

/-- The slot is given up by an operation whose user something else answers for. -/
theorem Serves.dropRelease (huser : ∀ op, a.operations.lookup id = some op → op.userId.isSome = true) :
    a.Serves users initial now ((a.dropAttemptUser now id).release id) := by
  have hdrop : a.Serves users initial now (a.dropAttemptUser now id) := .dropAttemptUser
  unfold Accounts.release
  split
  next hslot =>
    have hslot : a.slot = some id := dropAttemptUser_slot.symm.trans hslot
    refine ⟨fun u hu hk => ?_, fun hm => hdrop.marks hm, hdrop.rows, .inr rfl, fun op hop => .inr ⟨rfl, ?_⟩⟩
    · have hanswered : (a.dropAttemptUser now id).answered initial u = true := by
        rcases kept_eq_true.mp (hdrop.kept u hu hk) with h | ⟨op, hop, hu, hc⟩
        · exact h
        · obtain ⟨k, hk, hop⟩ := holder_eq_some.mp hop
          obtain rfl : id = k := Option.some.inj (hslot.symm.trans (dropAttemptUser_slot.symm.trans hk))
          rw [lookup_dropAttemptUser_self] at hop
          exact answered_dropAttemptUser hop hc hu
      exact kept_of_answered (answered_mono hanswered answered_of_linked answered_of_pending fun k op hop h => answered_of_claims hop h)
    · obtain ⟨k, hk, hop⟩ := holder_eq_some.mp hop
      obtain rfl : id = k := Option.some.inj (hslot.symm.trans hk)
      exact huser op hop
  next => exact hdrop

theorem Serves.endOp {state : OpState} {code : Option ErrorCode} (hslot : a.slot = some id) (hstate : state.active = false) :
    a.Serves users initial now (a.endOp now id state code) :=
  .modify fun _ _ => ⟨.ended hstate, fun h => h, fun h => h, .inl hslot⟩

/-- An operation ends, and what it created is answered for by something else. -/
theorem Serves.endDrop {state : OpState} {code : Option ErrorCode} (hstate : state.active = false) :
    a.Serves users initial now ((a.endOp now id state code).dropAttemptUser now id) := by
  have hdrop : (a.endOp now id state code).Serves users initial now ((a.endOp now id state code).dropAttemptUser now id) :=
    .dropAttemptUser
  have hrow : ∀ k op, a.operations.lookup k = some op → (a.endOp now id state code).operations.lookup k =
      some (if k = id then { op with state := state, errorCode := code, endedAt := some now } else op) := fun k op hop => by
    rw [Accounts.endOp, lookup_modify]
    split
    next heq => rw [← heq, hop]; rfl
    next => exact hop
  refine ⟨fun u hu hk => ?_, fun hm => hdrop.marks ?_, fun k op' hop' => ?_, hdrop.slot, fun op hop => ?_⟩
  · rcases kept_eq_true.mp hk with hk | ⟨op, hop, huser, hcreated⟩
    · rcases answered_eq_true.mp hk with hk | hk | hk | ⟨k, op, hop, hclaims⟩
      · exact hdrop.kept u hu (kept_of_answered (answered_eq_true.mpr (.inl hk)))
      · exact hdrop.kept u hu (kept_of_answered (answered_of_linked hk))
      · exact hdrop.kept u hu (kept_of_answered (answered_of_pending hk))
      · have hrow := hrow k op hop
        obtain ⟨-, -, hc, huser⟩ := Operation.claims_eq_true.mp hclaims
        split at hrow
        next heq =>
          subst heq
          exact kept_of_answered (answered_dropAttemptUser hrow hc huser)
        next => exact hdrop.kept u hu (kept_of_answered (answered_of_claims hrow hclaims))
    · obtain ⟨k, hslot, hop⟩ := holder_eq_some.mp hop
      refine hdrop.kept u hu (kept_eq_true.mpr (.inr ⟨_, holder_eq_some.mpr ⟨k, hslot, hrow k op hop⟩, ?_⟩))
      split
      · exact ⟨huser, hcreated⟩
      · exact ⟨huser, hcreated⟩
  · obtain ⟨k, op, hop, hmark⟩ := reconcilePending_eq_true.mp hm
    refine reconcilePending_eq_true.mpr ⟨k, _, hrow k op hop, ?_⟩
    split
    · exact hmark
    · exact hmark
  · obtain ⟨op₁, hop₁, haged⟩ := hdrop.rows k op' hop'
    obtain ⟨rfl, op, hop, rfl⟩ | ⟨-, hop⟩ := lookup_modify_some.mp hop₁
    · exact ⟨op, hop, (Operation.Aged.ended hstate).trans haged⟩
    · exact ⟨op₁, hop, haged⟩
  · obtain ⟨k, hslot, hop⟩ := holder_eq_some.mp hop
    have hholder : (a.endOp now id state code).holder = some _ := holder_eq_some.mpr ⟨k, hslot, hrow k op hop⟩
    rcases hdrop.holder _ hholder with h | ⟨hnone, -⟩
    · exact .inl h
    · rw [dropAttemptUser_slot] at hnone
      exact absurd (hslot.symm.trans hnone) (by simp)

/-- An operation that is checked knows its user. -/
def Checked (a : Accounts) : Prop := ∀ id op, a.operations.lookup id = some op → op.state = .checking → op.userId.isSome = true

theorem Serves.checked (h : a.Serves users initial now b) (ha : a.Checked) : b.Checked := fun id op' hop' hstate => by
  obtain ⟨op, hop, haged⟩ := h.rows id op' hop'
  exact haged.userId ▸ ha id op hop (haged.checking hstate)

theorem Serves.stopAttempt {state : OpState} {code : Option ErrorCode} (h : a.Wf) (hc : a.Checked) (hstate : state.active = false)
    (hact : ∀ op, a.operations.lookup id = some op → op.state.active = true) :
    a.Serves users initial now (a.stopAttempt now id state code) := by
  unfold Accounts.stopAttempt
  split
  · exact .refl a
  next op hop =>
    have hslot := h.active hop (hact op hop)
    split
    next hcheck =>
      refine Serves.trans (.endOp hslot hstate) (.dropRelease fun op' hop' => ?_)
      obtain ⟨-, op₀, h₀, rfl⟩ | ⟨hne, -⟩ := lookup_modify_some.mp hop'
      · obtain rfl : op₀ = op := Option.some.inj (h₀.symm.trans hop)
        exact hc id op₀ hop hcheck
      · exact absurd rfl hne
    next => exact .endOp hslot hstate

theorem Serves.release (h : a.Serves users initial now b) (hslot : a.slot = some id)
    (huser : ∀ op, a.operations.lookup id = some op → op.userId.isSome = true)
    (hanswered : ∀ op u, b.operations.lookup id = some op → op.userId = some u → op.createdByAttempt = true → b.answered initial u = true) :
    a.Serves users initial now (b.release id) := by
  unfold Accounts.release
  split
  next hb =>
    refine ⟨fun u hu hk => ?_, fun hm => h.marks hm, h.rows, .inr rfl, fun op hop => .inr ⟨rfl, ?_⟩⟩
    · have hans : b.answered initial u = true := by
        rcases kept_eq_true.mp (h.kept u hu hk) with hans | ⟨op, hop, hu', hcr⟩
        · exact hans
        · obtain ⟨k, hk, hop⟩ := holder_eq_some.mp hop
          obtain rfl : id = k := Option.some.inj (hb.symm.trans hk)
          exact hanswered op u hop hu' hcr
      exact kept_of_answered (answered_mono hans answered_of_linked answered_of_pending fun k op hop h => answered_of_claims hop h)
    · obtain ⟨k, hk, hop⟩ := holder_eq_some.mp hop
      obtain rfl : id = k := Option.some.inj (hslot.symm.trans hk)
      exact huser op hop
  next => exact h

theorem Serves.reconcile {user? : Option User} (h : a.Wf) (hc : a.Checked)
    (hcheck : ∀ op, a.operations.lookup id = some op → op.state = .checking) :
    a.Serves users initial now (a.reconcile now id user?) := by
  unfold Accounts.reconcile
  split
  next op user hop =>
    have hstate := hcheck op hop
    have hslot := h.active hop (by rw [hstate]; rfl)
    have huniq : ∀ op', a.operations.lookup id = some op' → op' = op := fun op' hop' => Option.some.inj (hop'.symm.trans hop)
    split
    · refine Serves.trans (.endOp hslot rfl) (.dropRelease fun op' hop' => ?_)
      obtain ⟨-, op₀, h₀, rfl⟩ | ⟨hne, -⟩ := lookup_modify_some.mp hop'
      · obtain rfl := huniq op₀ h₀
        exact hc id op₀ hop hstate
      · exact absurd rfl hne
    · split
      · exact .refl a
      · split
        · refine Serves.release (.modify fun op' hop' => ?_) hslot (fun op' hop' => ?_) fun op' u hop' huser hcreated => ?_
          · refine ⟨⟨rfl, rfl, .inl rfl, fun h => (by cases h), fun h => (by cases h)⟩, fun h => h, fun h => h, .inl hslot⟩
          · obtain rfl := huniq op' hop'
            exact hc id op' hop hstate
          · -- The attempt is connected now, and answers for the user it created.
            obtain ⟨-, op₀, h₀, rfl⟩ | ⟨hne, -⟩ := lookup_modify_some.mp hop'
            · obtain rfl := huniq op₀ h₀
              have hcom : op₀.committed = false := h.not_committed_of_active h₀ (by rw [hcheck _ h₀]; rfl)
              exact answered_of_claims hop' (Operation.claims_eq_true.mpr ⟨.inr rfl, hcom, hcreated, huser⟩)
            · exact absurd rfl hne
        · exact .modify fun op' _ => ⟨⟨rfl, rfl, .inl rfl, fun h => h, fun h => h⟩, fun h => h, fun h => h, .inl hslot⟩
  next => exact .refl a

theorem Serves.onUserChanged {users? : Option (List UserId)} {getUser : OpId → Option User} (h : a.Wf) (hc : a.Checked)
    (hl : ∀ l, users? = some l → l = users) : a.Serves users initial now (a.onUserChanged now u users? getUser) := by
  unfold Accounts.onUserChanged
  refine (List.foldlRecOn (motive := fun b : Accounts => b.Wf ∧ a.Serves users initial now b) _ _ ?_ fun b hb k _ => ?_).2
  · split
    next hgone =>
      simp only [Bool.and_eq_true, Option.any_eq_true, Bool.not_eq_true'] at hgone
      obtain ⟨-, l, hsome, hnot⟩ := hgone
      exact ⟨h.eraseRemoval, (Removes.eraseRemoval fun hu => by simp [hl l hsome, hu] at hnot).serves⟩
    next => exact ⟨h, .refl a⟩
  · split
    next op hop =>
      split
      next hstate =>
        simp only [Bool.and_eq_true, decide_eq_true_eq] at hstate
        have hcheck : ∀ op', b.operations.lookup k = some op' → op'.state = .checking := fun op' hop' =>
          Option.some.inj (hop'.symm.trans hop) ▸ hstate.1
        exact ⟨hb.1.reconcile hcheck, hb.2.trans (.reconcile hb.1 (hb.2.checked hc) hcheck)⟩
      next => exact hb
    next => exact hb

/-! ## Timers -/

theorem Serves.expire {ttl : Nat} (h : a.Wf) (hc : a.Checked) : a.Serves users initial now (a.expire now ttl) := by
  unfold Accounts.expire
  refine (List.foldlRecOn (motive := fun b : Accounts => b.Wf ∧ a.Serves users initial now b) _ _ ⟨h, .refl a⟩ fun b hb k _ => ?_).2
  split
  next op hop =>
    have huniq : ∀ op', b.operations.lookup k = some op' → op' = op := fun op' hop' => Option.some.inj (hop'.symm.trans hop)
    split
    · split
      next hact =>
        have hact' : ∀ op', b.operations.lookup k = some op' → op'.state.active = true := fun op' hop' => huniq op' hop' ▸ hact
        exact ⟨hb.1.stopAttempt hact' (by decide), hb.2.trans (.stopAttempt hb.1 (hb.2.checked hc) rfl hact')⟩
      next =>
        split
        next hcon =>
          simp only [Bool.and_eq_true, Bool.not_eq_true', decide_eq_true_eq] at hcon
          exact ⟨(hb.1.endOp (fun op' hop' => huniq op' hop' ▸ hcon.2) (by decide)).dropAttemptUser,
            hb.2.trans (.endDrop rfl)⟩
        next => exact hb
    · exact hb
  next => exact hb

/-- No attempt that waits for its commit is past its lifetime. -/
def Fresh (a : Accounts) (now ttl : Nat) : Prop :=
  ∀ id op, a.operations.lookup id = some op → op.state = .connected → op.committed = false → now < op.createdAt + ttl

theorem lookup_endDrop {state : OpState} {code : Option ErrorCode} {op' : Operation} (hstate : state ≠ .connected)
    (h : ((a.endOp now id state code).dropAttemptUser now id).operations.lookup k = some op') : ∃ op, a.operations.lookup k = some op ∧
      op'.createdAt = op.createdAt ∧ op'.reconcile = op.reconcile ∧
        (op'.state = .connected → k ≠ id ∧ op.state = .connected ∧ op'.committed = op.committed) := by
  obtain ⟨op₁, h₁, heq⟩ := lookup_dropAttemptUser h
  rw [heq]
  obtain ⟨rfl, op, hop, rfl⟩ | ⟨hne, hop⟩ := lookup_modify_some.mp h₁
  · exact ⟨op, hop, rfl, rfl, fun hc => absurd hc hstate⟩
  · exact ⟨op₁, hop, rfl, rfl, fun hc => ⟨hne, hc, rfl⟩⟩

theorem lookup_stopAttempt {state : OpState} {code : Option ErrorCode} {op' : Operation} (hstate : state ≠ .connected)
    (h : (a.stopAttempt now id state code).operations.lookup k = some op') : ∃ op, a.operations.lookup k = some op ∧
      op'.createdAt = op.createdAt ∧ op'.reconcile = op.reconcile ∧
        (op'.state = .connected → k ≠ id ∧ op.state = .connected ∧ op'.committed = op.committed) := by
  unfold Accounts.stopAttempt at h
  split at h
  next hnone => exact ⟨op', h, rfl, rfl, fun hc => ⟨fun heq => by simp [heq ▸ h] at hnone, hc, rfl⟩⟩
  · split at h
    · have : (((a.endOp now id state code).dropAttemptUser now id).release id).operations =
          ((a.endOp now id state code).dropAttemptUser now id).operations := by
        unfold Accounts.release
        split <;> rfl
      rw [this] at h
      exact lookup_endDrop hstate h
    · obtain ⟨rfl, op, hop, rfl⟩ | ⟨hne, hop⟩ := lookup_modify_some.mp h
      · exact ⟨op, hop, rfl, rfl, fun hc => absurd hc hstate⟩
      · exact ⟨op', hop, rfl, rfl, fun hc => ⟨hne, hc, rfl⟩⟩

theorem expire_fresh {ttl : Nat} : (a.expire now ttl).Fresh now ttl := by
  have hkeys : ∀ id op, a.operations.lookup id = some op → op.state = .connected → op.committed = false →
      id ∈ a.operations.keys ∨ now < op.createdAt + ttl :=
    fun id op hop _ _ => .inl (AList.mem_keys.mp (AList.lookup_isSome.mp (by rw [hop]; rfl)))
  unfold Accounts.expire
  generalize a.operations.keys = l at hkeys ⊢
  induction l generalizing a with
  | nil => exact fun id op hop hc hcom => (hkeys id op hop hc hcom).resolve_left (by simp)
  | cons k l ih =>
    refine ih fun id op' hop' hc hcom => ?_
    -- A row that was ended by this step is not connected; any other is as before.
    have hother : ∀ op, a.operations.lookup id = some op → op'.createdAt = op.createdAt → id ≠ k ∧ op.state = .connected ∧
        op'.committed = op.committed → id ∈ l ∨ now < op'.createdAt + ttl := fun op hop hat hsame => by
      obtain ⟨hne, hst, hc'⟩ := hsame
      rcases hkeys id op hop hst (hc' ▸ hcom) with hmem | hlt
      · exact .inl ((List.mem_cons.mp hmem).resolve_left hne)
      · exact .inr (hat ▸ hlt)
    dsimp only at hop'
    split at hop'
    next op hop =>
      split at hop'
      next hold =>
        split at hop'
        next hact =>
          obtain ⟨op₀, h₀, hat, -, hconn⟩ := lookup_stopAttempt (by decide) hop'
          exact hother op₀ h₀ hat (hconn hc)
        next hact =>
          split at hop'
          next =>
            obtain ⟨op₀, h₀, hat, -, hconn⟩ := lookup_endDrop (by decide) hop'
            exact hother op₀ h₀ hat (hconn hc)
          next hnot =>
            refine hother op' hop' rfl ⟨fun heq => hnot ?_, hc, rfl⟩
            subst heq
            obtain rfl : op = op' := Option.some.inj (hop.symm.trans hop')
            simp [hc, hcom]
      next hyoung =>
        by_cases heq : id = k
        · subst heq
          obtain rfl : op = op' := Option.some.inj (hop.symm.trans hop')
          exact .inr (Nat.lt_of_not_le hyoung)
        · exact hother op' hop' rfl ⟨heq, hc, rfl⟩
    next hnone => exact hother op' hop' rfl ⟨fun heq => by simp [heq ▸ hop'] at hnone, hc, rfl⟩

/-- Forgotten operations answered for nobody. -/
theorem Serves.prune {ttl : Nat} (hfresh : a.Fresh now ttl)
    (hclock : ∀ id op t, a.operations.lookup id = some op → op.endedAt = some t → op.createdAt ≤ t) :
    a.Serves users initial now (a.prune now ttl) := by
  have hrow : ∀ k op, a.operations.lookup k = some op →
      (op.state.terminal && op.endedAt.any (fun t => t + ttl ≤ now) && a.slot ≠ some k && !op.reconcile) = false →
      (a.prune now ttl).operations.lookup k = some op := fun k op hop hkept => by
    rw [Accounts.prune, Table.lookup_delete, hop, Option.filter_some, if_pos]
    rw [hkept]
    rfl
  refine ⟨fun u hu hk => ?_, fun hm => ?_, fun k op' hop' => ?_, .inl rfl, fun op hop => ?_⟩
  · rcases kept_eq_true.mp hk with hk | ⟨op, hop, huser, hcreated⟩
    · refine kept_of_answered (answered_mono hk (fun hl => answered_of_linked hl) (fun hp => answered_of_pending hp)
        fun k op hop hclaims => answered_of_claims (hrow k op hop ?_) hclaims)
      obtain ⟨hstate, hcom, -⟩ := Operation.claims_eq_true.mp hclaims
      rcases hstate with hact | hcon
      · have : op.state.terminal = false := by
          by_contra hterm
          simp [OpState.not_active (by simpa using hterm)] at hact
        simp [this]
      · have hlt := hfresh k op hop hcon hcom
        cases hend : op.endedAt with
        | none => simp
        | some t =>
          have := hclock k op t hop hend
          simp only [Option.any_some, Bool.and_eq_false_iff, decide_eq_false_iff_not]
          exact .inl (.inl (.inr (by omega)))
    · obtain ⟨k, hslot, hop⟩ := holder_eq_some.mp hop
      exact kept_eq_true.mpr (.inr ⟨op, holder_eq_some.mpr ⟨k, hslot, hrow k op hop (by simp [hslot])⟩, huser, hcreated⟩)
  · obtain ⟨k, op, hop, hmark⟩ := reconcilePending_eq_true.mp hm
    exact reconcilePending_eq_true.mpr ⟨k, op, hrow k op hop (by simp [hmark]), hmark⟩
  · rw [Accounts.prune, Table.lookup_delete] at hop'
    exact ⟨op', (Option.filter_eq_some_iff.mp hop').1, .refl op'⟩
  · obtain ⟨k, hslot, hop⟩ := holder_eq_some.mp hop
    exact .inl ⟨op, holder_eq_some.mpr ⟨k, hslot, hrow k op hop (by simp [hslot])⟩⟩

/-- A commit links the user that the attempt answered for. -/
theorem Serves.commit {email : Address} {g : Generation} (hop : a.operations.lookup id = some op) (huser : op.userId = some u) :
    a.Serves users initial now (if op.committed then { a with links := a.links.insert (u, email) g }
      else ({ a with links := a.links.insert (u, email) g } : Accounts).modify id fun op =>
        { op with committed := true, endedAt := some now }) := by
  have hlinked : linked { a with links := a.links.insert (u, email) g } u = true :=
    linked_eq_true.mpr ⟨email, g, AList.lookup_insert _⟩
  have hlink : a.Serves users initial now { a with links := a.links.insert (u, email) g } := by
    refine .of_operations rfl rfl (fun v _ hv => answered_of_linked ?_) fun v _ hv => answered_of_pending hv
    obtain ⟨email', g', hl⟩ := linked_eq_true.mp hv
    by_cases heq : (v, email') = (u, email)
    · cases heq
      exact hlinked
    · exact linked_eq_true.mpr ⟨email', g', (AList.lookup_insert_ne heq).trans hl⟩
  split
  · exact hlink
  · refine hlink.trans (.modify fun op' hop' => ?_)
    obtain rfl : op' = op := Option.some.inj (Eq.trans hop'.symm hop)
    refine ⟨⟨rfl, rfl, .inr rfl, fun h => h, fun h => h⟩, fun h => h, fun h => h, .inr fun v hv => ?_⟩
    obtain ⟨-, -, -, hv⟩ := Operation.claims_eq_true.mp hv
    obtain rfl : u = v := Option.some.inj (huser.symm.trans hv)
    exact answered_of_linked hlinked

theorem Serves.except (h : a.Serves (users.filter (· ≠ u)) initial now b) (hu : b.answered initial u = true) :
    a.Serves users initial now b where
  kept v hv hk := by
    by_cases heq : v = u
    · exact kept_of_answered (heq ▸ hu)
    · exact h.kept v (List.mem_filter.mpr ⟨hv, by simpa using heq⟩) hk
  marks := h.marks
  rows := h.rows
  slot := h.slot
  holder := h.holder

/-- The link of another user's address is not what answers for a user. -/
theorem Serves.unlink {email : Address} :
    a.Serves (users.filter (· ≠ u)) initial now { a with links := a.links.erase (u, email) } := by
  refine .of_operations rfl rfl (fun v hv hl => answered_of_linked ?_) fun v _ hv => answered_of_pending hv
  obtain ⟨email', g, hl⟩ := linked_eq_true.mp hl
  have hne : v ≠ u := by simpa using (List.mem_filter.mp hv).2
  refine linked_eq_true.mpr ⟨email', g, (AList.lookup_erase_ne ?_).trans hl⟩
  exact fun heq => hne (congrArg Prod.fst heq)

/-! ## A reconciliation -/

theorem modify_modify {f g : Operation → Operation} : (a.modify id f).modify id g = a.modify id fun op => g (f op) := by
  have ht : (a.operations.modify id f).modify id g = a.operations.modify id fun op => g (f op) := by
    refine AList.ext ?_
    show (a.operations.entries.map _).map _ = a.operations.entries.map _
    rw [List.map_map]
    refine List.map_congr_left fun e _ => ?_
    by_cases he : e.1 = id <;> simp [he]
  rw [Accounts.modify, Accounts.modify, Accounts.modify]
  dsimp only
  rw [ht]

theorem retryRemoval_none {users? : Option (List UserId)} (h : a.pendingRemovals.lookup v = none) :
    (a.retryRemoval now u users?).pendingRemovals.lookup v = none := by
  unfold Accounts.retryRemoval
  split
  next _ _ hitem =>
    have hne : v ≠ u := fun heq => by
      rw [heq, hitem] at h
      cases h
    split
    · have := @beginRemoval_lookup a now u v ‹Removal›.reason
      rw [h] at this
      simpa [hne] using this
    · exact (AList.lookup_erase_ne hne).trans h
  next => exact h

/-- The timers ask for no removal that was not asked for. -/
theorem removalTimers_none {canRecover : Bool} {lists : UserId → Option (List UserId)} (h : a.pendingRemovals.lookup v = none) :
    (a.removalTimers now canRecover lists).1.pendingRemovals.lookup v = none := by
  unfold Accounts.removalTimers
  refine List.foldlRecOn (motive := fun p : Accounts × Bool => p.1.pendingRemovals.lookup v = none) _ _ h fun p hp u _ => ?_
  have hset : ∀ item, (p.1.pendingRemovals.lookup u).isSome = true → (p.1.setRemoval u item).pendingRemovals.lookup v = none :=
    fun item hsome => by
      refine (AList.lookup_insert_ne fun heq : v = u => ?_).trans hp
      rw [← heq, hp] at hsome
      cases hsome
  split
  · exact hp
  next item hitem =>
    split
    · exact hp
    · split
      · split
        · split
          · exact hset _ (by rw [hitem]; rfl)
          · exact hp
        · exact retryRemoval_none (hset _ (by rw [hitem]; rfl))
      · exact retryRemoval_none hp

def reconciles (a : Accounts) (u : UserId) : Bool := a.operations.entries.any fun e => e.2.reconcile && !a.known e.1 e.2 u

theorem reconciles_eq_true : a.reconciles u = true ↔
    ∃ id op, a.operations.lookup id = some op ∧ op.reconcile = true ∧ a.known id op u = false := by
  simp only [reconciles, List.any_eq_true, Bool.and_eq_true, Bool.not_eq_true']
  constructor
  · rintro ⟨⟨id, op⟩, hmem, h⟩
    exact ⟨id, op, Table.mem_entries.mp hmem, h⟩
  · rintro ⟨id, op, hop, h⟩
    exact ⟨⟨id, op⟩, Table.mem_entries.mpr hop, h⟩

/-- What a reconciliation leaves unknown of a user that nothing answers for. -/
theorem known_same {op' : Operation}
    (hrows : ∀ id op', b.operations.lookup id = some op' → ∃ op, a.operations.lookup id = some op ∧ op'.userId = op.userId ∧
      op'.state = op.state) (hlinks : b.links = a.links) (hop : op'.preexisting = op.preexisting)
    (hu : b.answered initial u = false) (h : a.known id op u = false) : b.known id op' u = false := by
  have hpending : (b.pendingRemovals.lookup u).isSome = false := by
    by_contra hp
    rw [Bool.not_eq_false] at hp
    simp [answered_of_pending hp] at hu
  simp only [known, Bool.or_eq_false_iff] at h ⊢
  refine ⟨⟨⟨hop ▸ h.1.1.1, ?_⟩, hpending⟩, Bool.eq_false_iff.mpr fun hany => ?_⟩
  · rw [linked, hlinks]
    exact h.1.1.2
  · obtain ⟨⟨k, op₁⟩, hmem, hcond⟩ := List.any_eq_true.mp hany
    obtain ⟨op₀, h₀, huser, hstate⟩ := hrows k op₁ (Table.mem_entries.mp hmem)
    refine Bool.eq_false_iff.mp h.2 (List.any_eq_true.mpr ⟨⟨k, op₀⟩, Table.mem_entries.mpr h₀, ?_⟩)
    rw [huser, hstate] at hcond
    exact hcond

theorem known_rows {op' : Operation} (hrows : a.Rows b) (hlinks : b.links = a.links) (hop : op'.preexisting = op.preexisting)
    (hu : b.answered initial u = false) (h : a.known id op u = false) : b.known id op' u = false := by
  refine known_same (fun k op₁ h₁ => ?_) hlinks hop hu h
  obtain ⟨op₀, h₀, heq, -⟩ := hrows k op₁ h₁
  exact ⟨op₀, h₀, by rw [heq], by rw [heq]⟩

/-- The reconciliation of `a` has come to `b`: of the marked operations it either dealt with one, or will again. -/
structure Reconciles (users initial : List UserId) (a b : Accounts) : Prop where
  rows : a.Rows b
  back : ∀ id op, a.operations.lookup id = some op → ∃ op', b.operations.lookup id = some op' ∧
    op' = { op with reconcile := op'.reconcile, endedAt := op'.endedAt }
  links : b.links = a.links
  pending : ∀ u, (a.pendingRemovals.lookup u).isSome = true → (b.pendingRemovals.lookup u).isSome = true
  marked : ∀ id op, a.operations.lookup id = some op → op.reconcile = true →
    (∃ op', b.operations.lookup id = some op' ∧ op'.reconcile = true) ∨
      ∀ u ∈ users, a.known id op u = false → b.answered initial u = true

theorem Reconciles.refl (a : Accounts) : a.Reconciles users initial a where
  rows := .of_eq rfl
  back _ op hop := ⟨op, hop, rfl⟩
  links := rfl
  pending _ h := h
  marked _ op hop h := .inl ⟨op, hop, h⟩

theorem Reconciles.answered (h : a.Reconciles users initial b) (hu : a.answered initial u = true) : b.answered initial u = true := by
  refine answered_mono hu (fun hl => answered_of_linked ?_) (fun hp => answered_of_pending (h.pending u hp)) fun id op hop hc => ?_
  · rw [linked, h.links]
    exact hl
  · obtain ⟨op', hop', heq⟩ := h.back id op hop
    refine answered_of_claims hop' ?_
    rw [heq]
    exact hc

theorem beginRemovals_pending {l : List UserId} {reason : Reason} :
    ((l.foldl (fun a u => a.beginRemoval now u reason) a).pendingRemovals.lookup v).isSome = true ↔
      v ∈ l ∨ (a.pendingRemovals.lookup v).isSome = true := by
  induction l generalizing a with
  | nil => simp
  | cons u l ih =>
    rw [List.foldl_cons, ih, beginRemoval_lookup, List.mem_cons]
    simp only [Bool.or_eq_true, decide_eq_true_eq]
    tauto

theorem Reconciles.reconcileOrphans {users? : Option (List UserId)} (h : a.Reconciles users initial b)
    (hl : ∀ l, users? = some l → l = users) (hop : b.operations.lookup id = some op) :
    a.Reconciles users initial (b.reconcileOrphans now id users?).1 ∧ ((b.reconcileOrphans now id users?).2 = true →
      ∀ op₀, a.operations.lookup id = some op₀ → ∀ u ∈ users, a.known id op₀ u = false →
        (b.reconcileOrphans now id users?).1.answered initial u = true) := by
  unfold Accounts.reconcileOrphans
  rw [hop]
  cases users? with
  | none => exact ⟨h, fun hdone => by cases hdone⟩
  | some l =>
    obtain rfl := hl l rfl
    dsimp only
    set c := (l.filter fun u => !b.known id op u).foldl (fun a u => a.beginRemoval now u .attempt) b with hc
    have hops : c.operations = b.operations := beginRemovals_operations.1
    have hlinks : c.links = b.links := beginRemovals_links
    have hpending : ∀ v, (c.pendingRemovals.lookup v).isSome = true ↔
        v ∈ (l.filter fun u => !b.known id op u) ∨ (b.pendingRemovals.lookup v).isSome = true := fun v => beginRemovals_pending
    have hrow : ∀ k op', c.operations.lookup k = some op' → ∃ op'', (c.modify id fun op =>
        { op with reconcile := false }).operations.lookup k = some op'' ∧
        op'' = { op' with reconcile := op''.reconcile, endedAt := op''.endedAt } ∧ (k ≠ id → op'' = op') := fun k op' hop' => by
      rw [lookup_modify]
      split
      next heq =>
        subst heq
        exact ⟨{ op' with reconcile := false }, by rw [hop']; rfl, rfl, fun hne => absurd rfl hne⟩
      next hne => exact ⟨op', hop', rfl, fun _ => rfl⟩
    have hrows : a.Rows (c.modify id fun op => { op with reconcile := false }) :=
      h.rows.trans (Rows.trans (.of_eq hops) (.modify fun op => ⟨rfl, fun h => by cases h⟩))
    have hdone : ∀ op₀, a.operations.lookup id = some op₀ → ∀ u ∈ l, a.known id op₀ u = false →
        (c.modify id fun op => { op with reconcile := false }).answered initial u = true := fun op₀ h₀ u hu hknown => by
      by_contra hnot
      have hbnot : b.answered initial u = false := by
        by_contra hb
        refine hnot (answered_mono (by simpa using hb) (fun hl => answered_of_linked ?_)
          (fun hp => answered_of_pending ((hpending u).mpr (.inr hp))) fun k op' hop' hclaims => ?_)
        · show (c.links.entries.any _) = true
          rw [hlinks]
          exact hl
        · obtain ⟨op'', hop'', heq, -⟩ := hrow k op' (hops ▸ hop')
          refine answered_of_claims hop'' ?_
          rw [heq]
          exact hclaims
      obtain ⟨op₁, h₁, heq⟩ := h.back id op₀ h₀
      obtain rfl : op = op₁ := Option.some.inj (hop.symm.trans h₁)
      have hunknown := @known_rows _ _ _ _ _ _ op h.rows h.links (by rw [heq]) hbnot hknown
      refine hnot (answered_of_pending ((hpending u).mpr (.inl (List.mem_filter.mpr ⟨hu, ?_⟩))))
      rw [hunknown]
      rfl
    refine ⟨⟨hrows, fun k op₀ h₀ => ?_, hlinks.trans h.links, fun u hu => (hpending u).mpr (.inr (h.pending u hu)),
      fun k op₀ h₀ hm => ?_⟩, fun _ => hdone⟩
    · obtain ⟨op₁, h₁, heq⟩ := h.back k op₀ h₀
      obtain ⟨op'', hop'', heq', -⟩ := hrow k op₁ (hops ▸ h₁)
      refine ⟨op'', hop'', ?_⟩
      rw [heq', heq]
    · by_cases hk : k = id
      · subst hk
        exact .inr (hdone op₀ h₀)
      · rcases h.marked k op₀ h₀ hm with ⟨op₁, h₁, hm₁⟩ | hall
        · obtain ⟨op'', hop'', -, heq⟩ := hrow k op₁ (hops ▸ h₁)
          exact .inl ⟨op'', hop'', by rw [heq hk]; exact hm₁⟩
        · refine .inr fun u hu hknown => ?_
          refine answered_mono (hall u hu hknown) (fun hl => answered_of_linked ?_)
            (fun hp => answered_of_pending ((hpending u).mpr (.inr hp))) fun j op' hop' hclaims => ?_
          · show (c.links.entries.any _) = true
            rw [hlinks]
            exact hl
          · obtain ⟨op'', hop'', heq, -⟩ := hrow j op' (hops ▸ hop')
            refine answered_of_claims hop'' ?_
            rw [heq]
            exact hclaims

theorem Reconciles.reconcileMarked {lists : OpId → Option (List UserId)} (hl : ∀ id l, lists id = some l → l = users) :
    a.Reconciles users initial (a.reconcileMarked now lists).1 ∧ ((a.reconcileMarked now lists).2 = true →
      ∀ id op, a.operations.lookup id = some op → op.reconcile = true → ∀ u ∈ users, a.known id op u = false →
        (a.reconcileMarked now lists).1.answered initial u = true) := by
  have hp : a.Reconciles users initial ((a, true) : Accounts × Bool).1 := .refl a
  have hdone : ((a, true) : Accounts × Bool).2 = true → ∀ id op, a.operations.lookup id = some op → op.reconcile = true →
      id ∈ a.operations.keys ∨ ∀ u ∈ users, a.known id op u = false → ((a, true) : Accounts × Bool).1.answered initial u = true :=
    fun _ id op hop _ => .inl (AList.mem_keys.mp (AList.lookup_isSome.mp (by rw [hop]; rfl)))
  unfold Accounts.reconcileMarked
  generalize a.operations.keys = l at hdone ⊢
  generalize (a, true) = p at hp hdone ⊢
  induction l generalizing p with
  | nil => exact ⟨hp, fun hok id op hop hm => (hdone hok id op hop hm).resolve_left (by simp)⟩
  | cons k l ih =>
    rw [List.foldl_cons]
    -- The operation `k` is dealt with: it was before, or it is now.
    have hskip : (∀ op', p.1.operations.lookup k = some op' → op'.reconcile = false) → p.2 = true →
        ∀ id op, a.operations.lookup id = some op → op.reconcile = true → id ∈ l ∨
          ∀ u ∈ users, a.known id op u = false → p.1.answered initial u = true := fun hnot hok id op hop hm => by
      rcases hdone hok id op hop hm with hmem | hall
      · rcases List.mem_cons.mp hmem with rfl | hmem
        · rcases hp.marked id op hop hm with ⟨op', hop', hm'⟩ | hall
          · simp [hnot op' hop'] at hm'
          · exact .inr hall
        · exact .inl hmem
      · exact .inr hall
    split
    next op' hop' =>
      split
      next hm' =>
        obtain ⟨hstep, hnow⟩ := @Reconciles.reconcileOrphans _ _ now _ _ _ _ _ hp (hl k) hop'
        refine ih _ hstep fun hok id op hop hm => ?_
        simp only [Bool.and_eq_true] at hok
        by_cases hid : id = k
        · subst hid
          exact .inr (hnow hok.1 op hop)
        · rcases hdone hok.2 id op hop hm with hmem | hall
          · exact .inl ((List.mem_cons.mp hmem).resolve_left hid)
          · exact .inr fun u hu hknown =>
              (@Reconciles.reconcileOrphans _ _ now _ _ _ _ _ (.refl p.1) (hl k) hop').1.answered (hall u hu hknown)
      next hnm =>
        refine ih p hp (hskip fun op'' hop'' => ?_)
        obtain rfl : op'' = op' := Option.some.inj (hop''.symm.trans hop')
        simpa using hnm
    next hnone => exact ih p hp (hskip fun op'' hop'' => by simp [hnone] at hop'')

/-- A reconciliation keeps the slot and its operation, or frees it once every marked operation is dealt with. -/
theorem Reconciles.reconcileAll {lists : OpId → Option (List UserId)} (hl : ∀ id l, lists id = some l → l = users) :
    a.Reconciles users initial (a.reconcileAll now lists).1 ∧ ((a.reconcileAll now lists).1.slot = a.slot ∨
      (a.reconcileAll now lists).1.slot = none ∧ ∀ u ∈ users, a.reconciles u = true →
        (a.reconcileAll now lists).1.answered initial u = true) := by
  obtain ⟨hm, hdone⟩ := @Reconciles.reconcileMarked a now _ initial _ hl
  have hslot := (@Rows.reconcileMarked a now lists).2
  have hfree : (a.reconcileMarked now lists).2 = true → ∀ u ∈ users, a.reconciles u = true →
      (a.reconcileMarked now lists).1.answered initial u = true := fun hok u hu hrec => by
    obtain ⟨id, op, hop, hmark, hknown⟩ := reconciles_eq_true.mp hrec
    exact hdone hok id op hop hmark u hu hknown
  have hended : ∀ id, a.Reconciles users initial ((a.reconcileMarked now lists).1.modify id fun op => { op with endedAt := some now }) :=
    fun id => by
      have hrow : ∀ k op', (a.reconcileMarked now lists).1.operations.lookup k = some op' → ∃ op'',
          ((a.reconcileMarked now lists).1.modify id fun op => { op with endedAt := some now }).operations.lookup k = some op'' ∧
            op'' = { op' with endedAt := op''.endedAt } := fun k op' hop' => by
        rw [lookup_modify]
        split
        next heq => exact ⟨{ op' with endedAt := some now }, by rw [← heq, hop']; rfl, rfl⟩
        next => exact ⟨op', hop', rfl⟩
      refine ⟨hm.rows.trans (.modify fun op => ⟨rfl, fun h => h⟩), fun k op hop => ?_, hm.links, hm.pending, fun k op hop hmark => ?_⟩
      · obtain ⟨op', hop', heq⟩ := hm.back k op hop
        obtain ⟨op'', hop'', heq'⟩ := hrow k op' hop'
        refine ⟨op'', hop'', ?_⟩
        rw [heq', heq]
      · rcases hm.marked k op hop hmark with ⟨op', hop', hm'⟩ | hall
        · obtain ⟨op'', hop'', heq⟩ := hrow k op' hop'
          exact .inl ⟨op'', hop'', by rw [heq]; exact hm'⟩
        · refine .inr fun u hu hknown => answered_mono (hall u hu hknown) (fun h => answered_of_linked h)
            (fun h => answered_of_pending h) fun j op' hop' hclaims => ?_
          obtain ⟨op'', hop'', heq⟩ := hrow j op' hop'
          refine answered_of_claims hop'' ?_
          rw [heq]
          exact hclaims
  have hset : ∀ slot, a.Reconciles users initial { (a.reconcileMarked now lists).1 with slot := slot } := fun slot =>
    ⟨hm.rows, hm.back, hm.links, hm.pending, hm.marked⟩
  unfold Accounts.reconcileAll
  dsimp only
  split
  · split
    next hok => exact ⟨hset none, .inr ⟨rfl, hfree hok⟩⟩
    next => exact ⟨hm, .inl hslot⟩
  · exact ⟨hm, .inl hslot⟩
  · split
    next hok =>
      simp only [Bool.and_eq_true] at hok
      exact ⟨hset none, .inr ⟨rfl, hfree hok.1⟩⟩
    next => exact ⟨hended _, .inl hslot⟩

theorem reconcileMarked_endedAt {lists : OpId → Option (List UserId)} {op' : Operation}
    (h : (a.reconcileMarked now lists).1.operations.lookup k = some op') :
    ∃ op, a.operations.lookup k = some op ∧ op'.endedAt = op.endedAt := by
  suffices hrows : ∀ k op', (a.reconcileMarked now lists).1.operations.lookup k = some op' →
      ∃ op, a.operations.lookup k = some op ∧ op'.endedAt = op.endedAt from hrows k op' h
  unfold Accounts.reconcileMarked
  refine List.foldlRecOn (motive := fun p : Accounts × Bool => ∀ k op', p.1.operations.lookup k = some op' →
    ∃ op, a.operations.lookup k = some op ∧ op'.endedAt = op.endedAt) _ _ (fun _ op' hop' => ⟨op', hop', rfl⟩)
    fun p hp id _ k op' hop' => ?_
  split at hop'
  · split at hop'
    · unfold Accounts.reconcileOrphans at hop'
      split at hop'
      · obtain ⟨rfl, op, hop, rfl⟩ | ⟨-, hop⟩ := lookup_modify_some.mp hop'
        · exact hp k op (beginRemovals_operations.1 ▸ hop)
        · exact hp k op' (beginRemovals_operations.1 ▸ hop)
      · exact hp k op' hop'
    · exact hp k op' hop'
  · exact hp k op' hop'

theorem reconcileAll_endedAt {lists : OpId → Option (List UserId)} {op' : Operation}
    (h : (a.reconcileAll now lists).1.operations.lookup k = some op') :
    ∃ op, a.operations.lookup k = some op ∧ (op'.endedAt = op.endedAt ∨ op'.endedAt = some now) := by
  have hsame : ∀ op', (a.reconcileMarked now lists).1.operations.lookup k = some op' →
      ∃ op, a.operations.lookup k = some op ∧ (op'.endedAt = op.endedAt ∨ op'.endedAt = some now) := fun op' hop' => by
    obtain ⟨op, hop, heq⟩ := reconcileMarked_endedAt hop'
    exact ⟨op, hop, .inl heq⟩
  unfold Accounts.reconcileAll at h
  dsimp only at h
  split at h
  · split at h
    · exact hsame op' h
    · exact hsame op' h
  · exact hsame op' h
  · split at h
    · exact hsame op' h
    · obtain ⟨rfl, op, hop, rfl⟩ | ⟨-, hop⟩ := lookup_modify_some.mp h
      · obtain ⟨op₀, h₀, -⟩ := reconcileMarked_endedAt hop
        exact ⟨op₀, h₀, .inr rfl⟩
      · exact hsame op' hop

/-! ## Marks -/

/-- Of the users that nothing answers for, each goes with a marked operation, if there is one. -/
def Ready (users initial : List UserId) (a : Accounts) : Prop :=
  a.reconcilePending = true → ∀ u ∈ users, a.answered initial u = false → a.reconciles u = true

theorem Reconciles.ready (h : a.Reconciles users initial b) (ha : a.Ready users initial) : b.Ready users initial := fun hm u hu hun => by
  have haun : a.answered initial u = false := by
    by_contra hans
    rw [Bool.not_eq_false] at hans
    simp [h.answered hans] at hun
  have ham : a.reconcilePending = true := by
    obtain ⟨id, op', hop', hmark⟩ := reconcilePending_eq_true.mp hm
    obtain ⟨op, hop, -, hback⟩ := h.rows id op' hop'
    exact reconcilePending_eq_true.mpr ⟨id, op, hop, hback hmark⟩
  obtain ⟨id, op, hop, hmark, hknown⟩ := reconciles_eq_true.mp (ha ham u hu haun)
  rcases h.marked id op hop hmark with ⟨op', hop', hmark'⟩ | hall
  · obtain ⟨op'', hop'', heq⟩ := h.back id op hop
    obtain rfl : op' = op'' := Option.some.inj (hop'.symm.trans hop'')
    exact reconciles_eq_true.mpr ⟨id, op', hop', hmark', known_rows h.rows h.links (by rw [heq]) hun hknown⟩
  · simp [hall u hu hknown] at hun

theorem Removes.ready (h : a.Removes users b) (ha : a.Ready users initial) : b.Ready users initial := fun hm u hu hun => by
  have haun : a.answered initial u = false := by
    by_contra hans
    rw [Bool.not_eq_false] at hans
    simp [h.answered hu hans] at hun
  have ham : a.reconcilePending = true := by
    rw [reconcilePending, ← h.operations]
    exact hm
  obtain ⟨id, op, hop, hmark, hknown⟩ := reconciles_eq_true.mp (ha ham u hu haun)
  exact reconciles_eq_true.mpr ⟨id, op, h.operations ▸ hop, hmark, known_rows (.of_eq h.operations) h.links rfl hun hknown⟩

theorem answered_of_beginRemoval {reason : Reason} (h : a.answered initial v = true) :
    (a.beginRemoval now u reason).answered initial v = true :=
  @Removes.answered _ _ _ [v] _ .beginRemoval (List.mem_singleton_self v) h

theorem answered_of_dropAttemptUser (h : a.answered initial v = true) : (a.dropAttemptUser now id).answered initial v = true := by
  unfold Accounts.dropAttemptUser
  split
  · exact h
  · split
    · split
      · exact h
      · split
        · exact answered_of_handOver h
        · exact answered_of_beginRemoval (answered_of_handOver h)
    · exact h

/-- Operations end without a mark, and what they answered for is still answered for. -/
structure Fades (initial : List UserId) (a b : Accounts) : Prop where
  links : b.links = a.links
  answered : ∀ u, a.answered initial u = true → b.answered initial u = true
  back : ∀ id op, a.operations.lookup id = some op → ∃ op', b.operations.lookup id = some op' ∧ op'.reconcile = op.reconcile ∧
    op'.preexisting = op.preexisting
  rows : ∀ id op', b.operations.lookup id = some op' → ∃ op, a.operations.lookup id = some op ∧ op'.userId = op.userId ∧
    op'.reconcile = op.reconcile ∧ (op'.state = op.state ∨ op'.state = .expired)

theorem Fades.refl (a : Accounts) : a.Fades initial a where
  links := rfl
  answered _ h := h
  back _ op hop := ⟨op, hop, rfl, rfl⟩
  rows _ op' hop' := ⟨op', hop', rfl, rfl, .inl rfl⟩

theorem Fades.trans (h : a.Fades initial b) (h' : b.Fades initial c) : a.Fades initial c where
  links := h'.links.trans h.links
  answered u hu := h'.answered u (h.answered u hu)
  back id op hop := by
    obtain ⟨op', hop', hr, hp⟩ := h.back id op hop
    obtain ⟨op'', hop'', hr', hp'⟩ := h'.back id op' hop'
    exact ⟨op'', hop'', hr'.trans hr, hp'.trans hp⟩
  rows id op'' hop'' := by
    obtain ⟨op', hop', hu', hr', hs'⟩ := h'.rows id op'' hop''
    obtain ⟨op, hop, hu, hr, hs⟩ := h.rows id op' hop'
    refine ⟨op, hop, hu'.trans hu, hr'.trans hr, ?_⟩
    rcases hs' with heq | heq
    · exact heq ▸ hs
    · exact .inr heq

theorem dropAttemptUser_links : (a.dropAttemptUser now id).links = a.links := by
  unfold Accounts.dropAttemptUser
  split
  · rfl
  · split
    · split
      · rfl
      · split <;> rfl
    · rfl

theorem dropAttemptUser_row (hop : a.operations.lookup k = some op) :
    ∃ op', (a.dropAttemptUser now id).operations.lookup k = some op' ∧ op' = { op with createdByAttempt := op'.createdByAttempt } := by
  unfold Accounts.dropAttemptUser
  split
  · exact ⟨op, hop, rfl⟩
  · split
    · split
      · exact ⟨op, hop, rfl⟩
      · obtain ⟨op', hop', heq, -⟩ := @handOver_row _ _ _ _ (some id) hop
        split
        · exact ⟨op', hop', heq⟩
        · exact ⟨op', hop', heq⟩
    · exact ⟨op, hop, rfl⟩

theorem Fades.endDrop : a.Fades initial ((a.endOp now id .expired none).dropAttemptUser now id) := by
  have hrow : ∀ k op, a.operations.lookup k = some op → (a.endOp now id .expired none).operations.lookup k =
      some (if k = id then { op with state := .expired, errorCode := none, endedAt := some now } else op) := fun k op hop => by
    rw [Accounts.endOp, lookup_modify]
    split
    next heq => rw [← heq, hop]; rfl
    next => exact hop
  refine ⟨dropAttemptUser_links, fun u hu => ?_, fun k op hop => ?_, fun k op' hop' => ?_⟩
  · rcases answered_eq_true.mp hu with hu | hu | hu | ⟨k, op, hop, hclaims⟩
    · exact answered_of_dropAttemptUser (answered_eq_true.mpr (.inl hu))
    · exact answered_of_dropAttemptUser (answered_of_linked hu)
    · exact answered_of_dropAttemptUser (answered_of_pending hu)
    · have hrow := hrow k op hop
      obtain ⟨-, -, hc, huser⟩ := Operation.claims_eq_true.mp hclaims
      split at hrow
      next heq =>
        subst heq
        exact answered_dropAttemptUser hrow hc huser
      next => exact answered_of_dropAttemptUser (answered_of_claims hrow hclaims)
  · obtain ⟨op', hop', heq⟩ := @dropAttemptUser_row _ now id _ _ (hrow k op hop)
    refine ⟨op', hop', ?_⟩
    rw [heq]
    split <;> exact ⟨rfl, rfl⟩
  · obtain ⟨op₁, h₁, heq⟩ := lookup_dropAttemptUser hop'
    rw [heq]
    obtain ⟨rfl, op, hop, rfl⟩ | ⟨-, hop⟩ := lookup_modify_some.mp h₁
    · exact ⟨op, hop, rfl, rfl, .inr rfl⟩
    · exact ⟨op₁, hop, rfl, rfl, .inl rfl⟩

theorem Fades.ready (h : a.Fades initial b) (ha : a.Ready users initial) : b.Ready users initial := fun hm u hu hun => by
  have haun : a.answered initial u = false := by
    by_contra hans
    rw [Bool.not_eq_false] at hans
    simp [h.answered u hans] at hun
  have ham : a.reconcilePending = true := by
    obtain ⟨id, op', hop', hmark⟩ := reconcilePending_eq_true.mp hm
    obtain ⟨op, hop, -, heq, -⟩ := h.rows id op' hop'
    exact reconcilePending_eq_true.mpr ⟨id, op, hop, heq ▸ hmark⟩
  obtain ⟨id, op, hop, hmark, hknown⟩ := reconciles_eq_true.mp (ha ham u hu haun)
  obtain ⟨op', hop', hr, hp⟩ := h.back id op hop
  refine reconciles_eq_true.mpr ⟨id, op', hop', hr.trans hmark, ?_⟩
  have hpending : (b.pendingRemovals.lookup u).isSome = false := by
    by_contra hpend
    rw [Bool.not_eq_false] at hpend
    simp [answered_of_pending hpend] at hun
  simp only [known, Bool.or_eq_false_iff] at hknown ⊢
  refine ⟨⟨⟨hp ▸ hknown.1.1.1, ?_⟩, hpending⟩, Bool.eq_false_iff.mpr fun hany => ?_⟩
  · rw [linked, h.links]
    exact hknown.1.1.2
  · obtain ⟨⟨k, op₁⟩, hmem, hcond⟩ := List.any_eq_true.mp hany
    obtain ⟨op₀, h₀, huser, -, hstate⟩ := h.rows k op₁ (Table.mem_entries.mp hmem)
    refine Bool.eq_false_iff.mp hknown.2 (List.any_eq_true.mpr ⟨⟨k, op₀⟩, Table.mem_entries.mpr h₀, ?_⟩)
    simp only [Bool.and_eq_true, Bool.or_eq_true, decide_eq_true_eq] at hcond ⊢
    rcases hstate with heq | heq
    · exact ⟨⟨hcond.1.1, huser ▸ hcond.1.2⟩, heq ▸ hcond.2⟩
    · rcases hcond.2 with h | h <;> simp [heq] at h

theorem expire_marks {ttl : Nat} (hm : (a.expire now ttl).reconcilePending = true) : a.reconcilePending = true := by
  have hrows : ∀ id op', (a.expire now ttl).operations.lookup id = some op' →
      ∃ op, a.operations.lookup id = some op ∧ op'.reconcile = op.reconcile := by
    unfold Accounts.expire
    refine List.foldlRecOn (motive := fun b : Accounts => ∀ id op', b.operations.lookup id = some op' →
      ∃ op, a.operations.lookup id = some op ∧ op'.reconcile = op.reconcile) _ _ (fun id op' hop' => ⟨op', hop', rfl⟩)
      fun b hb k _ id op' hop' => ?_
    have hstep : (∃ op, b.operations.lookup id = some op ∧ op'.reconcile = op.reconcile) →
        ∃ op, a.operations.lookup id = some op ∧ op'.reconcile = op.reconcile := fun ⟨op, hop, heq⟩ => by
      obtain ⟨op₀, h₀, heq₀⟩ := hb id op hop
      exact ⟨op₀, h₀, heq.trans heq₀⟩
    refine hstep ?_
    split at hop'
    · split at hop'
      · split at hop'
        · obtain ⟨op, hop, -, heq, -⟩ := lookup_stopAttempt (by decide) hop'
          exact ⟨op, hop, heq⟩
        · split at hop'
          · obtain ⟨op, hop, -, heq, -⟩ := lookup_endDrop (by decide) hop'
            exact ⟨op, hop, heq⟩
          · exact ⟨op', hop', rfl⟩
      · exact ⟨op', hop', rfl⟩
    · exact ⟨op', hop', rfl⟩
  obtain ⟨id, op', hop', hmark⟩ := reconcilePending_eq_true.mp hm
  obtain ⟨op, hop, heq⟩ := hrows id op' hop'
  exact reconcilePending_eq_true.mpr ⟨id, op, hop, heq ▸ hmark⟩

/-- While an operation is marked none is under way, so that those past their lifetime only wait for a commit. -/
theorem Ready.expire {ttl : Nat} (hwf : a.Wf) (ha : a.Ready users initial) : (a.expire now ttl).Ready users initial := by
  intro hm'
  have hm := expire_marks hm'
  refine (?_ : (a.expire now ttl).Ready users initial) hm'
  have hidle : ∀ id op, a.operations.lookup id = some op → op.state.active = false := fun id op hop => by
    by_contra hact
    rw [Bool.not_eq_false] at hact
    obtain ⟨k, op', hop', hmark⟩ := reconcilePending_eq_true.mp hm
    obtain ⟨hterm, hk⟩ := hwf.marked hop' hmark
    obtain rfl := hk id (hwf.active hop hact)
    obtain rfl : op = op' := Option.some.inj (hop.symm.trans hop')
    simp [OpState.not_active hterm] at hact
  refine Fades.ready ?_ ha
  unfold Accounts.expire
  refine List.foldlRecOn (motive := fun b : Accounts => a.Fades initial b) _ _ (.refl a) fun b hb k _ => ?_
  split
  next op hop =>
    obtain ⟨op₀, h₀, -, -, hstate⟩ := hb.rows k op hop
    have hact : op.state.active = false := by
      rcases hstate with heq | heq
      · rw [heq]
        exact hidle k op₀ h₀
      · rw [heq]
        rfl
    split
    · split
      next h => simp [hact] at h
      next =>
        split
        · exact hb.trans .endDrop
        · exact hb
    · exact hb
  next => exact hb

/-- An operation that was under way is marked by the next worker. -/
theorem reconcilePending_load_active {asked : List UserId} (hop : a.operations.lookup id = some op) (hact : op.state.active = true) :
    (a.saved.load now asked).reconcilePending = true := by
  refine reconcilePending_eq_true.mpr ⟨id, _, Journal.lookup_load.mpr ⟨op.saved, lookup_saved.mpr ⟨op, hop, rfl⟩, rfl⟩, ?_⟩
  rw [Operation.loaded, if_pos (show op.saved.state.active = true from hact)]

/-- What a worker that starts from the journal of `a` finds of a user. -/
theorem answered_load {asked : List UserId} (h : a.answered initial u = true) :
    (a.saved.load now asked).answered initial u = true ∨ (a.saved.load now asked).reconcilePending = true := by
  rcases answered_eq_true.mp h with hu | hu | hu | ⟨id, op, hop, hclaims⟩
  · exact .inl (answered_eq_true.mpr (.inl hu))
  · exact .inl (answered_of_linked hu)
  · refine .inl (answered_of_pending ?_)
    obtain ⟨item, hitem⟩ := Option.isSome_iff_exists.mp hu
    simp [Journal.load, saved, hitem]
  · obtain ⟨hstate, hcom, hcreated, huser⟩ := Operation.claims_eq_true.mp hclaims
    have hrow : (a.saved.load now asked).operations.lookup id = some (op.saved.loaded now) :=
      Journal.lookup_load.mpr ⟨op.saved, lookup_saved.mpr ⟨op, hop, rfl⟩, rfl⟩
    rcases hstate with hact | hcon
    · exact .inr (reconcilePending_load_active hop hact)
    · refine .inl (answered_of_claims hrow ?_)
      rw [Operation.loaded, if_neg (by simp [Operation.saved, hcon, OpState.active])]
      exact Operation.claims_eq_true.mpr ⟨.inr hcon, hcom, hcreated, huser⟩

theorem reconcilePending_load {asked : List UserId} (h : a.reconcilePending = true) :
    (a.saved.load now asked).reconcilePending = true := by
  obtain ⟨id, op, hop, hmark⟩ := reconcilePending_eq_true.mp h
  refine reconcilePending_eq_true.mpr ⟨id, _, Journal.lookup_load.mpr ⟨op.saved, lookup_saved.mpr ⟨op, hop, rfl⟩, rfl⟩, ?_⟩
  unfold Operation.loaded
  split
  · rfl
  · exact hmark

/-- When the worker starts does not matter for what it finds. -/
theorem answered_load_now {j : Journal} {now' : Nat} {asked asked' : List UserId} :
    (j.load now asked).answered initial u = (j.load now' asked').answered initial u := by
  have hrow : ∀ m m' : Nat, ∀ l l' : List UserId, ((j.load m l).answered initial u = true → (j.load m' l').answered initial u = true) :=
    fun m m' l l' h => by
      refine answered_mono h (fun hl => answered_of_linked hl) (fun hp => answered_of_pending ?_) fun id op hop hclaims => ?_
      · simp only [Journal.load, Table.lookup_update, Option.isSome_map] at hp ⊢
        exact hp
      · obtain ⟨op₀, h₀, rfl⟩ := Journal.lookup_load.mp hop
        refine answered_of_claims (Journal.lookup_load.mpr ⟨op₀, h₀, rfl⟩) ?_
        obtain ⟨hstate, hcom, hcreated, huser⟩ := Operation.claims_eq_true.mp hclaims
        unfold Operation.loaded at *
        split at hstate
        next hact =>
          rcases hstate with h | h <;> cases h
        next hact =>
          rw [if_neg hact] at hcom hcreated huser ⊢
          exact Operation.claims_eq_true.mpr ⟨hstate, hcom, hcreated, huser⟩
  exact Bool.eq_iff_iff.mpr ⟨hrow _ _ _ _, hrow _ _ _ _⟩

theorem reconcilePending_load_now {j : Journal} {now' : Nat} {asked asked' : List UserId} :
    (j.load now asked).reconcilePending = (j.load now' asked').reconcilePending := by
  have hrow : ∀ m m' : Nat, ∀ l l' : List UserId, ((j.load m l).reconcilePending = true → (j.load m' l').reconcilePending = true) :=
    fun m m' l l' h => by
      obtain ⟨id, op, hop, hmark⟩ := reconcilePending_eq_true.mp h
      obtain ⟨op₀, h₀, rfl⟩ := Journal.lookup_load.mp hop
      refine reconcilePending_eq_true.mpr ⟨id, _, Journal.lookup_load.mpr ⟨op₀, h₀, rfl⟩, ?_⟩
      unfold Operation.loaded at *
      split at hmark
      next hact => rw [if_pos hact]
      next hact => rw [if_neg hact]; exact hmark
  exact Bool.eq_iff_iff.mpr ⟨hrow _ _ _ _, hrow _ _ _ _⟩

end Accounts

end MailExpert.ProtonWorker
