import MailExpert.ProtonWorker.LoginEvents
import MailExpert.ProtonWorker.Ownership

/-!
# The users of Bridge

A user that Bridge holds is answered for, or a marked operation will remove it, or the slot's operation signed it in
(`Covered`); and a worker that starts from the journal finds the same (`Recorded`). That is so in every run without these steps
(`RemovalGuard`), besides those of `AttributionGuard`: an attempt signs in a user that was there when the attempt began and that
nothing answers for any more; Bridge is restarted, or operations are reconciled, while every marked operation knows a user that
nothing answers for, or the slot's operation has ended without a mark; and the worker restarts from a journal without a mark
while the slot is held.
-/

namespace MailExpert.ProtonWorker

namespace State

section

variable (cfg : Config) (s : State)

/-- The users of Bridge that nothing answers for. -/
def orphans : List UserId := s.bridge.users.filter fun u => !s.accounts.answered s.initial u

def slotEnded : Bool := s.accounts.holder.any fun op => op.state.terminal

/-- A restart of Bridge removes the users that nothing answers for, where it may free the slot or take a mark away. -/
def restartable : Bool := !(s.accounts.reconcilePending || s.slotEnded) || s.orphans.all s.accounts.reconciles

/-- The slot's operation is about to be marked, and removes the user then. -/
def dueFor (u : UserId) : Bool :=
  s.holderDue cfg && s.accounts.slot.any fun id => s.accounts.holder.any fun op => !s.accounts.known id op u

/-- The same as `restartable`, for a restart after the slot's operation was marked where it is due. -/
def restartableDue : Bool :=
  !(s.accounts.reconcilePending || s.slotEnded) || s.orphans.all fun u => s.accounts.reconciles u || s.dueFor cfg u

/-- The worker as it would start from the journal. -/
def found : Accounts := s.journal.load 0 []

/-- A worker that starts from the journal would miss a user of Bridge. -/
def missed : Bool := !s.found.reconcilePending && s.bridge.users.any fun u => !s.found.answered s.initial u

/-- The attempt that signs the user in did not find it there, or the user is answered for. -/
def signsInNew : Nat × Event → Bool
  | (_, .login _ (.finished u)) => s.accounts.holder.all fun op => !op.preexisting.contains u || s.accounts.answered s.initial u
  | _ => true

end

end State

open State in
def RemovalGuard (cfg : Config) (s : State) (l : Label) : Prop :=
  AttributionGuard s l ∧ match l with
  | .deliver i _ => (s.waiting[i]?.all s.signsInNew) = true
  | .credentials .. =>
    s.alive = false → s.snapshot = none → s.restartable = true ∧ (s.slotEnded = true → s.missed = false)
  | .remove .. | .boot _ => s.alive = false → s.snapshot = none → s.restartable = true
  | .endSnapshot id _ => s.alive = false → (s.snapshot.any (·.id = id)) = true → s.restartable = true
  | .tick _ => (s.snapshot.all (·.expiresAt ≤ s.now)) = true →
    (s.alive = false → s.snapshot.isSome = true → s.restartable = true) ∧
    (s.recovering = false → (s.accounts.reconcilePending = true → s.orphans.all s.accounts.reconciles = true) ∧
      (s.alive = false → s.started = false ∨ s.snapshot.isSome = true → (s.tickExpire cfg).restartableDue cfg = true))
  | .recovered _ => s.recovery = some true → s.restartable = true
  | .restart _ => s.accounts.slot.isSome = true → s.missed = false
  | _ => True

instance (cfg : Config) (s : State) (l : Label) : Decidable (RemovalGuard cfg s l) :=
  @instDecidableAnd _ _ inferInstance <| match l with
    | .deliver .. => inferInstanceAs (Decidable (_ = _))
    | .credentials .. | .remove .. | .boot _ | .endSnapshot .. | .tick _ | .recovered _ | .restart _ => inferInstanceAs (Decidable (_ → _))
    | .start .. | .continueLogin .. | .cancel _ | .commit .. | .acquire _ | .release _ | .begin .. | .wake .. | .renew _ | .recoverNative _
    | .pass _ | .emit .. | .report _ | .loseStream _ | .die _ | .gone _ | .handOver => .isTrue trivial

namespace State

variable {cfg : Config} {s s' t : State} {n : Native}

/-- The last login signed the user in, and its operation has not been told. -/
def Signed (s : State) (u : UserId) : Prop :=
  ∃ op l, s.accounts.holder = some op ∧ op.userId = none ∧ s.bridge.logins.getLast? = some l ∧ l.outcome = some (.finished u)

/-- No user of Bridge is forgotten. -/
structure Covered (s : State) : Prop where
  users : ∀ u ∈ s.bridge.users, s.accounts.kept s.initial u = true ∨ s.accounts.reconcilePending = true ∨ s.Signed u
  checked : s.accounts.Checked
  clock : ∀ id op, s.accounts.operations.lookup id = some op → op.createdAt ≤ s.now ∧ ∀ t, op.endedAt = some t → op.createdAt ≤ t
  done : ∀ op, s.accounts.holder = some op → op.userId.isSome = true →
    ∀ k e, k + 1 = s.bridge.logins.length → s.Sent (.login k e) → e.outcome? = none

/-- A worker that starts from the journal forgets none either, unless the slot's operation has to tell it. -/
structure Recorded (s : State) : Prop where
  users : ∀ u ∈ s.bridge.users, s.found.answered s.initial u = true ∨ s.found.reconcilePending = true ∨ s.Signed u ∨
    ∃ op, s.accounts.holder = some op ∧ op.userId = some u ∧ op.createdByAttempt = true
  active : ∀ op, s.accounts.holder = some op → op.state.active = true → s.found.reconcilePending = true

theorem list_eq_some {l : Listing} {users : List UserId} (h : s.list n l = some users) : users = s.bridge.users := by
  unfold list Bridge.listUsers at h
  split at h
  · exact (Option.some.inj h).symm
  · cases h

theorem Covered.serves {a : Accounts} (h : s.Covered) (ha : s.accounts.Serves s.bridge.users s.initial s.now a) :
    ({ s with accounts := a } : State).Covered := by
  have hholder : ∀ op', a.holder = some op' → ∃ op, s.accounts.holder = some op ∧ op.Aged s.now op' := fun op' hop' => by
    obtain ⟨id, hid, hop'⟩ := Accounts.holder_eq_some.mp hop'
    obtain ⟨op, hop, haged⟩ := ha.rows id op' hop'
    rcases ha.slot with heq | heq
    · exact ⟨op, Accounts.holder_eq_some.mpr ⟨id, heq ▸ hid, hop⟩, haged⟩
    · simp [heq] at hid
  refine ⟨fun u hu => ?_, ha.checked h.checked, fun id op' hop' => ?_, fun op' hop' huser k e hk he => ?_⟩
  · rcases h.users u hu with hk | hm | ⟨op, l, hop, huser, hl, hout⟩
    · exact .inl (ha.kept u hu hk)
    · exact .inr (.inl (ha.marks hm))
    · rcases ha.holder op hop with ⟨op', hop'⟩ | ⟨-, hsome⟩
      · obtain ⟨op₀, h₀, haged⟩ := hholder op' hop'
        obtain rfl : op = op₀ := Option.some.inj (hop.symm.trans h₀)
        exact .inr (.inr ⟨op', l, hop', haged.userId.trans huser, hl, hout⟩)
      · simp [huser] at hsome
  · obtain ⟨op, hop, haged⟩ := ha.rows id op' hop'
    obtain ⟨hnow, hend⟩ := h.clock id op hop
    refine ⟨haged.createdAt ▸ hnow, fun t ht => ?_⟩
    rcases haged.endedAt with heq | heq
    · exact haged.createdAt ▸ hend t (heq ▸ ht)
    · rw [heq] at ht
      cases ht
      exact haged.createdAt ▸ hnow
  · obtain ⟨op, hop, haged⟩ := hholder op' hop'
    exact h.done op hop (haged.userId ▸ huser) k e hk he

theorem Covered.persist (h : s.Covered) : s.persist.Covered := ⟨h.users, h.checked, h.clock, h.done⟩

theorem Covered.recorded (h : s.Covered) : s.persist.Recorded := by
  refine ⟨fun u hu => ?_, fun op hop hact => ?_⟩
  · rcases h.users u hu with hk | hm | hs
    · rcases Accounts.kept_eq_true.mp hk with hans | hop
      · rcases @Accounts.answered_load _ 0 _ _ [] hans with h | h
        · exact .inl h
        · exact .inr (.inl h)
      · exact .inr (.inr (.inr hop))
    · exact .inr (.inl (Accounts.reconcilePending_load hm))
    · exact .inr (.inr (.inl hs))
  · obtain ⟨id, -, hop⟩ := Accounts.holder_eq_some.mp hop
    exact Accounts.reconcilePending_load_active hop hact

/-- Both, of a state that was written to the journal. -/
theorem Covered.both (h : s.Covered) : s.persist.Covered ∧ s.persist.Recorded := ⟨h.persist, h.recorded⟩

/-! ## Bridge is started -/

theorem answered_eq_false_of_orphan {u : UserId} : u ∈ s.orphans ↔ u ∈ s.bridge.users ∧ s.accounts.answered s.initial u = false := by
  simp [orphans]

theorem restartable_eq_true : s.restartable = true ↔ (s.accounts.reconcilePending = true ∨ s.slotEnded = true →
    ∀ u ∈ s.bridge.users, s.accounts.answered s.initial u = false → s.accounts.reconciles u = true) := by
  simp only [restartable, Bool.or_eq_true, Bool.not_eq_true', Bool.or_eq_false_iff, List.all_eq_true,
    answered_eq_false_of_orphan, and_imp]
  constructor
  · rintro (⟨hm, he⟩ | h) hor
    · simp [hm, he] at hor
    · exact h
  · intro h
    by_cases hor : s.accounts.reconcilePending = true ∨ s.slotEnded = true
    · exact .inr (h hor)
    · rw [not_or, Bool.not_eq_true, Bool.not_eq_true] at hor
      exact .inl hor

/-- The operations that a reconciliation dealt with leave nobody behind. -/
theorem Covered.reconciled {a : Accounts} (h : s.Covered) (hre : s.restartable = true)
    (ha : s.accounts.Reconciles s.bridge.users s.initial a)
    (hended : ∀ id op', a.operations.lookup id = some op' → ∃ op, s.accounts.operations.lookup id = some op ∧
      (op'.endedAt = op.endedAt ∨ op'.endedAt = some s.now))
    (hslot : a.slot = s.accounts.slot ∨ a.slot = none ∧
      ∀ u ∈ s.bridge.users, s.accounts.reconciles u = true → a.answered s.initial u = true)
    (hterm : a.slot = s.accounts.slot ∨ a.slot = none ∧ ∀ op, s.accounts.holder = some op → op.state.terminal = true) :
    ({ s with accounts := a } : State).Covered := by
  have hre := restartable_eq_true.mp hre
  have hmarks : ∀ u ∈ s.bridge.users, s.accounts.reconciles u = true → a.answered s.initial u = true ∨ a.reconcilePending = true :=
    fun u hu hrec => by
      obtain ⟨id, op, hop, hmark, hknown⟩ := Accounts.reconciles_eq_true.mp hrec
      rcases ha.marked id op hop hmark with ⟨op', hop', hmark'⟩ | hall
      · exact .inr (Accounts.reconcilePending_eq_true.mpr ⟨id, op', hop', hmark'⟩)
      · exact .inl (hall u hu hknown)
  have hholder : ∀ op, s.accounts.holder = some op → a.slot = s.accounts.slot →
      ∃ op', a.holder = some op' ∧ op' = { op with reconcile := op'.reconcile, endedAt := op'.endedAt } := fun op hop heq => by
    obtain ⟨id, hid, hop⟩ := Accounts.holder_eq_some.mp hop
    obtain ⟨op', hop', hrow⟩ := ha.back id op hop
    exact ⟨op', Accounts.holder_eq_some.mpr ⟨id, heq.trans hid, hop'⟩, hrow⟩
  refine ⟨fun u hu => ?_, fun id op' hop' hstate => ?_, fun id op' hop' => ?_, fun op' hop' huser k e hk he => ?_⟩
  · cases hans : s.accounts.answered s.initial u with
    | true => exact .inl (Accounts.kept_of_answered (ha.answered hans))
    | false =>
      have hnot : s.accounts.reconcilePending = true ∨ s.slotEnded = true →
          a.answered s.initial u = true ∨ a.reconcilePending = true := fun hor => hmarks u hu (hre hor u hu hans)
      by_cases hsame : a.slot = s.accounts.slot
      · rcases h.users u hu with hk | hm | ⟨op, l, hop, huser, hl, hout⟩
        · rcases Accounts.kept_eq_true.mp hk with hans' | ⟨op, hop, huser, hcreated⟩
          · simp [hans] at hans'
          · obtain ⟨op', hop', heq⟩ := hholder op hop hsame
            refine .inl (Accounts.kept_eq_true.mpr (.inr ⟨op', hop', ?_⟩))
            rw [heq]
            exact ⟨huser, hcreated⟩
        · rcases hnot (.inl hm) with h | h
          · exact .inl (Accounts.kept_of_answered h)
          · exact .inr (.inl h)
        · obtain ⟨op', hop', heq⟩ := hholder op hop hsame
          refine .inr (.inr ⟨op', l, hop', ?_, hl, hout⟩)
          rw [heq]
          exact huser
      · -- The slot was held, by an operation that has ended.
        have hfree := (hslot.resolve_left hsame).2
        have hterm := (hterm.resolve_left hsame).2
        have hor : s.accounts.reconcilePending = true ∨ s.slotEnded = true := by
          rcases h.users u hu with hk | hm | ⟨op, l, hop, -⟩
          · rcases Accounts.kept_eq_true.mp hk with hans' | ⟨op, hop, -⟩
            · simp [hans] at hans'
            · exact .inr (by simp [slotEnded, hop, hterm op hop])
          · exact .inl hm
          · exact .inr (by simp [slotEnded, hop, hterm op hop])
        exact .inl (Accounts.kept_of_answered (hfree u hu (hre hor u hu hans)))
  · obtain ⟨op, hop, heq, -⟩ := ha.rows id op' hop'
    rw [heq] at hstate ⊢
    exact h.checked id op hop hstate
  · obtain ⟨op, hop, heq, -⟩ := ha.rows id op' hop'
    obtain ⟨hnow, hend⟩ := h.clock id op hop
    have hat : op'.createdAt = op.createdAt := by rw [heq]
    obtain ⟨op₀, h₀, hcase⟩ := hended id op' hop'
    obtain rfl : op = op₀ := Option.some.inj (hop.symm.trans h₀)
    refine ⟨hat ▸ hnow, fun t ht => ?_⟩
    rcases hcase with hsame | hset
    · exact hat ▸ hend t (hsame ▸ ht)
    · rw [hset] at ht
      cases ht
      exact hat ▸ hnow
  · obtain ⟨id, hid, hop'⟩ := Accounts.holder_eq_some.mp hop'
    obtain ⟨op, hop, heq, -⟩ := ha.rows id op' hop'
    rcases hterm with hsame | ⟨hnone, -⟩
    · rw [heq] at huser
      exact h.done op (Accounts.holder_eq_some.mpr ⟨id, hsame ▸ hid, hop⟩) huser k e hk he
    · have hid : a.slot = some id := hid
      simp [hnone] at hid

theorem Covered.reconcileAll (h : s.Covered) (hwf : s.accounts.Wf) (hre : s.restartable = true) :
    ({ s with accounts := (s.accounts.reconcileAll s.now fun id => s.list n (.orphans id)).1 } : State).Covered := by
  obtain ⟨hrec, hslot⟩ := @Accounts.Reconciles.reconcileAll s.accounts s.now _ s.initial
    (fun id => s.list n (.orphans id)) fun _ _ hl => list_eq_some hl
  exact h.reconciled hre hrec (fun _ _ hop' => Accounts.reconcileAll_endedAt hop') hslot (Accounts.reconcileAll_slot hwf)

/-- The removals that a restart asks for again. -/
theorem restarted_removes : (s.accounts.reconcileAll s.now fun id => s.list n (.orphans id)).1.Removes s.bridge.users (s.restarted n) := by
  unfold restarted
  exact List.foldlRecOn (motive := fun b : Accounts =>
    (s.accounts.reconcileAll s.now fun id => s.list n (.orphans id)).1.Removes s.bridge.users b) _ _ (.refl _)
    fun b hb u _ => hb.trans (.retryRemoval fun _ hl => list_eq_some hl)

theorem Covered.restarted (h : s.Covered) (hwf : s.accounts.Wf) (hre : s.restartable = true) :
    ({ s with accounts := s.restarted n } : State).Covered :=
  (h.reconcileAll hwf hre).serves (restarted_removes (s := s)).serves

theorem Covered.afterRestart (h : s.Covered) (hwf : s.accounts.Wf) (hre : s.restartable = true) : (s.afterRestart n).Covered := by
  obtain ⟨timers, heq⟩ := @afterRestart_eq s n
  rw [heq]
  have h' := h.restarted (n := n) hwf hre
  exact ⟨h'.users, h'.checked, h'.clock, h'.done⟩

/-- Bridge holds some of its users, and what it still says is some of what it said about the same logins. -/
theorem Covered.frame (h : s.Covered) (hl : t.bridge.logins = s.bridge.logins)
    (hsent : ∀ k e, t.Sent (.login k e) → s.Sent (.login k e)) (ha : t.accounts = s.accounts) (hi : t.initial = s.initial)
    (hu : ∀ u ∈ t.bridge.users, u ∈ s.bridge.users) (hnow : s.now ≤ t.now) : t.Covered := by
  refine ⟨fun u hmem => ?_, ha ▸ h.checked, fun id op hop => ?_, fun op hop huser k e hk he => ?_⟩
  · rcases h.users u (hu u hmem) with hk | hm | ⟨op, l, hop, huser, hlast, hout⟩
    · exact .inl (by rw [ha, hi]; exact hk)
    · exact .inr (.inl (ha ▸ hm))
    · exact .inr (.inr ⟨op, l, ha ▸ hop, huser, hl ▸ hlast, hout⟩)
  · obtain ⟨hat, hend⟩ := h.clock id op (ha ▸ hop)
    exact ⟨hat.trans hnow, hend⟩
  · exact h.done op (ha ▸ hop) huser k e (hl ▸ hk) (hsent k e he)

theorem Covered.fewer (h : s.Covered) (hf : s.Fewer t) (ha : t.accounts = s.accounts) (hi : t.initial = s.initial)
    (hu : ∀ u ∈ t.bridge.users, u ∈ s.bridge.users) (hnow : s.now ≤ t.now) : t.Covered :=
  h.frame hf.logins (fun _ _ he => hf.sent he) ha hi hu hnow

theorem Recorded.frame (h : s.Recorded) (hl : t.bridge.logins = s.bridge.logins) (ha : t.accounts = s.accounts)
    (hj : t.journal = s.journal) (hi : t.initial = s.initial) (hu : ∀ u ∈ t.bridge.users, u ∈ s.bridge.users) : t.Recorded := by
  have hfound : t.found = s.found := by rw [found, found, hj]
  refine ⟨fun u hmem => ?_, fun op hop hact => ?_⟩
  · rcases h.users u (hu u hmem) with hk | hm | ⟨op, l, hop, huser, hlast, hout⟩ | hop
    · exact .inl (by rw [hfound, hi]; exact hk)
    · exact .inr (.inl (hfound ▸ hm))
    · exact .inr (.inr (.inl ⟨op, l, ha ▸ hop, huser, hl ▸ hlast, hout⟩))
    · exact .inr (.inr (.inr (ha ▸ hop)))
  · exact hfound ▸ h.active op (ha ▸ hop) hact

theorem Fewer.launch {started lost : Bool} :
    s.Fewer { s with bridge := s.bridge.launch n, started := started, nativeLost := lost } :=
  .of_eq rfl (Nat.le_succ _) rfl (List.nil_sublist _)

theorem Covered.ensureStarted (h : s.Covered) (hwf : s.accounts.Wf)
    (hre : s.alive = false → s.snapshot = none → s.restartable = true) : (s.ensureStarted n).1.Covered := by
  obtain ⟨heq, -⟩ | ⟨heq, -⟩ | ⟨halive, hsnap, ⟨bridge, hbridge, heq⟩ | ⟨-, heq⟩⟩ := @ensureStarted_cases s n <;> rw [heq]
  · exact h
  · exact h
  · have hre := hre halive hsnap
    rcases hbridge with rfl | ⟨-, -, rfl⟩
    · exact Covered.afterRestart (h.fewer .launch rfl rfl (fun _ hu => hu) (Nat.le_refl _)) hwf hre
    · exact Covered.afterRestart ⟨h.users, h.checked, h.clock, h.done⟩ hwf hre
  · exact h.fewer .launch rfl rfl (fun _ hu => hu) (Nat.le_refl _)

/-- What a restart of Bridge does not write to the journal is in the marks there. -/
theorem Recorded.afterRestart (h : s.Recorded) (hwf : s.accounts.Wf)
    (hmiss : s.slotEnded = true → s.missed = false) : (s.afterRestart n).Recorded := by
  obtain ⟨timers, heq⟩ := @afterRestart_eq s n
  rw [heq]
  have hrows := (restarted_rows (s := s) (n := n)).1
  refine ⟨fun u hu => ?_, fun op' hop' hact => ?_⟩
  · have hkeep : ∀ op, s.accounts.holder = some op → (s.restarted n).slot = s.accounts.slot →
        ∃ op', (s.restarted n).holder = some op' ∧ op' = { op with reconcile := op'.reconcile, endedAt := op'.endedAt } :=
      fun op hop hsame => by
        obtain ⟨id, hid, hop⟩ := Accounts.holder_eq_some.mp hop
        obtain ⟨op', hop'⟩ := (Accounts.Wf.restarted (n := n) hwf).slot id (hsame.trans hid)
        obtain ⟨op₀, h₀, heq, -⟩ := hrows id op' hop'
        obtain rfl : op₀ = op := Option.some.inj (h₀.symm.trans hop)
        exact ⟨op', Accounts.holder_eq_some.mpr ⟨id, hsame.trans hid, hop'⟩, heq⟩
    have hfreed : ∀ op, s.accounts.holder = some op → (s.restarted n).slot ≠ s.accounts.slot →
        s.found.answered s.initial u = true ∨ s.found.reconcilePending = true := fun op hop hne => by
      have hterm := ((restarted_slot hwf).resolve_left hne).2 op hop
      have hmiss := hmiss (by simp [slotEnded, hop, hterm])
      rw [missed, Bool.and_eq_false_iff] at hmiss
      rcases hmiss with hm | hm
      · exact .inr (by simpa using hm)
      · refine .inl ?_
        by_contra hnot
        exact Bool.eq_false_iff.mp hm (List.any_eq_true.mpr ⟨u, hu, by simpa using hnot⟩)
    rcases h.users u hu with hk | hm | ⟨op, l, hop, huser, hl, hout⟩ | ⟨op, hop, huser, hcreated⟩
    · exact .inl hk
    · exact .inr (.inl hm)
    · by_cases hsame : (s.restarted n).slot = s.accounts.slot
      · obtain ⟨op', hop', heq⟩ := hkeep op hop hsame
        refine .inr (.inr (.inl ⟨op', l, hop', ?_, hl, hout⟩))
        rw [heq]
        exact huser
      · rcases hfreed op hop hsame with h | h
        · exact .inl h
        · exact .inr (.inl h)
    · by_cases hsame : (s.restarted n).slot = s.accounts.slot
      · obtain ⟨op', hop', heq⟩ := hkeep op hop hsame
        refine .inr (.inr (.inr ⟨op', hop', ?_⟩))
        rw [heq]
        exact ⟨huser, hcreated⟩
      · rcases hfreed op hop hsame with h | h
        · exact .inl h
        · exact .inr (.inl h)
  · obtain ⟨id, hid, hop'⟩ := Accounts.holder_eq_some.mp hop'
    obtain ⟨op, hop, heq, -⟩ := hrows id op' hop'
    have hid : (s.restarted n).slot = some id := hid
    rcases restarted_slot (n := n) hwf with hsame | ⟨hnone, -⟩
    · refine h.active op (Accounts.holder_eq_some.mpr ⟨id, hsame.symm.trans hid, hop⟩) ?_
      rw [heq] at hact
      exact hact
    · simp [hnone] at hid

theorem Recorded.ensureStarted (h : s.Recorded) (hwf : s.accounts.Wf)
    (hmiss : s.alive = false → s.snapshot = none → s.slotEnded = true → s.missed = false) : (s.ensureStarted n).1.Recorded := by
  obtain ⟨heq, -⟩ | ⟨heq, -⟩ | ⟨halive, hsnap, ⟨bridge, hbridge, heq⟩ | ⟨-, heq⟩⟩ := @ensureStarted_cases s n <;> rw [heq]
  · exact h
  · exact h
  · have hmiss := hmiss halive hsnap
    rcases hbridge with rfl | ⟨-, -, rfl⟩
    · exact Recorded.afterRestart (h.frame rfl rfl rfl rfl fun _ hu => hu) hwf hmiss
    · exact Recorded.afterRestart ⟨h.users, h.active⟩ hwf hmiss
  · exact h.frame rfl rfl rfl rfl fun _ hu => hu

theorem ensureStarted_rows : s.accounts.Rows (s.ensureStarted n).1.accounts := by
  obtain ⟨heq, -⟩ | ⟨heq, -⟩ | ⟨-, -, ⟨bridge, -, heq⟩ | ⟨-, heq⟩⟩ := @ensureStarted_cases s n <;> rw [heq]
  · exact .of_eq rfl
  · exact .of_eq rfl
  · exact (restarted_rows (s := { s with bridge := bridge, started := true, nativeLost := false })).1
  · exact .of_eq rfl

/-! ## Sign-ins -/

theorem restartable_of_free (hslot : s.accounts.slot = none) (hmarks : s.accounts.reconcilePending = false) : s.restartable = true := by
  simp [restartable, hmarks, slotEnded, Accounts.holder_none hslot]

/-- The login of an operation that takes the slot. -/
theorem Covered.login {id : OpId} {op : Operation} (h : s.Covered) (hslot : s.accounts.slot = none)
    (hmarks : s.accounts.reconcilePending = false) (hnew : s.accounts.operations.lookup id = none) (huser : op.userId = none)
    (hstate : op.state ≠ .checking) (hat : op.createdAt = s.now) (hend : op.endedAt = none) :
    ({ s with
      accounts := { s.accounts with operations := s.accounts.operations.insert id op, slot := some id }
      bridge := (s.bridge.login id n).1 } : State).Covered := by
  have hnone := Accounts.holder_none hslot
  have hrow : ∀ k op', (s.accounts.operations.insert id op).lookup k = some op' →
      op' = op ∨ s.accounts.operations.lookup k = some op' := fun k op' hop' => by
    rw [Table.lookup_insert'] at hop'
    split at hop'
    · exact .inl (Option.some.inj hop').symm
    · exact .inr hop'
  refine ⟨fun u hu => ?_, fun k op' hop' hc => ?_, fun k op' hop' => ?_, fun op' hop' hsome => ?_⟩
  · have hans : s.accounts.answered s.initial u = true := by
      rcases h.users u hu with hk | hm | ⟨op, l, hop, -⟩
      · rcases Accounts.kept_eq_true.mp hk with hans | ⟨op, hop, -⟩
        · exact hans
        · simp [hnone] at hop
      · simp [hmarks] at hm
      · simp [hnone] at hop
    refine .inl (Accounts.kept_of_answered (Accounts.answered_mono hans (fun hl => Accounts.answered_of_linked hl)
      (fun hp => Accounts.answered_of_pending hp) fun k op' hop' hclaims => @Accounts.answered_of_claims _ k _ _ _ ?_ hclaims))
    refine (AList.lookup_insert_ne fun heq : k = id => ?_).trans hop'
    rw [heq, hnew] at hop'
    cases hop'
  · rcases hrow k op' hop' with rfl | hop'
    · exact absurd hc hstate
    · exact h.checked k op' hop' hc
  · rcases hrow k op' hop' with rfl | hop'
    · exact ⟨Nat.le_of_eq hat, fun t ht => by simp [hend] at ht⟩
    · exact h.clock k op' hop'
  · obtain ⟨c, hc, hop'⟩ := Accounts.holder_eq_some.mp hop'
    obtain rfl : id = c := Option.some.inj hc
    rw [AList.lookup_insert] at hop'
    obtain rfl := Option.some.inj hop'
    simp [huser] at hsome

theorem Covered.startConnection {id : OpId} {email : Address} (h : s.Covered) (hr : s.Recorded) (hwf : s.accounts.Wf) :
    (s.startConnection n id email).1.Covered ∧ (s.startConnection n id email).1.Recorded := by
  unfold State.startConnection
  split
  · exact ⟨h, hr⟩
  next hnew =>
    split
    · exact ⟨h, hr⟩
    next hbusy =>
      obtain ⟨hslot, -, -, hmarks⟩ := busy_eq_false (Bool.not_eq_true _ ▸ hbusy)
      have h₁ := h.ensureStarted (n := n) hwf fun _ _ => restartable_of_free hslot hmarks
      have hr₁ := hr.ensureStarted (n := n) hwf fun _ _ hended => by
        rw [slotEnded, Accounts.holder_none hslot] at hended
        cases hended
      have hrows := ensureStarted_rows (s := s) (n := n)
      split
      next heq =>
        rw [heq] at h₁ hr₁
        exact ⟨h₁, hr₁⟩
      next t heq =>
        rw [heq] at h₁ hr₁ hrows
        split
        · exact ⟨h₁, hr₁⟩
        next hbusy' =>
          obtain ⟨hslot', -, -, hmarks'⟩ := busy_eq_false (Bool.not_eq_true _ ▸ hbusy')
          split
          · exact ⟨h₁, hr₁⟩
          next users _ =>
            have hnew' : t.accounts.operations.lookup id = none := by
              cases hop : t.accounts.operations.lookup id with
              | none => rfl
              | some op =>
                obtain ⟨op₀, h₀, -⟩ := hrows id op hop
                simp [hnew] at h₀
            have hlogin := @Covered.login _ n id { email := email, createdAt := t.now, preexisting := users } h₁ hslot' hmarks' hnew'
              rfl (fun h => by cases h) rfl rfl
            have h₂ : ({ State.persist { t with
                accounts := { t.accounts with
                  operations := t.accounts.operations.insert id { email := email, createdAt := t.now, preexisting := users }
                  slot := some id } } with bridge := (t.bridge.login id n).1 } : State).Covered ∧
                ({ State.persist { t with
                accounts := { t.accounts with
                  operations := t.accounts.operations.insert id { email := email, createdAt := t.now, preexisting := users }
                  slot := some id } } with bridge := (t.bridge.login id n).1 } : State).Recorded :=
              ⟨⟨hlogin.users, hlogin.checked, hlogin.clock, hlogin.done⟩, ⟨hlogin.recorded.users, hlogin.recorded.active⟩⟩
            dsimp only
            split
            · exact h₂
            · exact (h₂.1.serves (.endOp rfl rfl)).both

/-- The login that a challenge is answered for ends as it would have. -/
theorem Covered.continueLogin (h : s.Covered) : ({ s with bridge := (s.bridge.continueLogin n).1 } : State).Covered := by
  have hlast : ∀ l, s.bridge.logins.getLast? = some l →
      ∃ l', (s.bridge.continueLogin n).1.logins.getLast? = some l' ∧ l'.outcome = l.outcome := fun l hl => by
    unfold Bridge.continueLogin
    dsimp only
    split
    · rw [List.getLast?_eq_getElem?, List.length_modify, List.getElem?_modify, ← List.getLast?_eq_getElem?, hl]
      refine ⟨_, rfl, ?_⟩
      dsimp only
      rw [if_pos rfl]
      split <;> rfl
    · exact ⟨l, hl, rfl⟩
  have hlength : (s.bridge.continueLogin n).1.logins.length = s.bridge.logins.length := by
    unfold Bridge.continueLogin
    dsimp only
    split
    · exact List.length_modify ..
    · rfl
  refine ⟨fun u hu => ?_, h.checked, h.clock, fun op hop huser k e hk he => h.done op hop huser k e (hlength ▸ hk) he⟩
  rcases h.users u hu with hk | hm | ⟨op, l, hop, huser, hl, hout⟩
  · exact .inl hk
  · exact .inr (.inl hm)
  · obtain ⟨l', hl', hout'⟩ := hlast l hl
    exact .inr (.inr ⟨op, l', hop, huser, hl', hout'.trans hout⟩)

theorem Covered.continueConnection {id : OpId} {challenge : OpState} (h : s.Covered) (hr : s.Recorded) :
    (s.continueConnection n id challenge).1.Covered ∧ (s.continueConnection n id challenge).1.Recorded := by
  unfold State.continueConnection
  split
  · exact ⟨h, hr⟩
  next op hop =>
    split
    next hcond =>
      simp only [Bool.and_eq_true, Bool.or_eq_true, decide_eq_true_eq] at hcond
      obtain ⟨⟨hch, hstate⟩, hslot⟩ := hcond
      have hact : op.state.active = true := by
        rw [hstate]
        rcases hch with rfl | rfl <;> rfl
      have hset := h.serves (a := s.accounts.modify id fun op => { op with state := .authenticating, errorCode := none })
        (.modify fun op' hop' => by
          obtain rfl : op' = op := Option.some.inj (hop'.symm.trans hop)
          exact ⟨⟨rfl, rfl, .inl rfl, (fun h => by cases h), fun _ => hact⟩, fun h => h, fun h => h, .inl hslot⟩)
      have hcont := hset.persist.continueLogin (n := n)
      dsimp only
      split
      · exact hcont.both
      · exact (hcont.serves (.endOp hslot rfl)).both
    next => exact ⟨h, hr⟩

theorem Covered.cancelConnection {id : OpId} (h : s.Covered) (hr : s.Recorded) (hwf : s.accounts.Wf) :
    (s.cancelConnection id).1.Covered ∧ (s.cancelConnection id).1.Recorded := by
  unfold State.cancelConnection
  split
  · exact ⟨h, hr⟩
  next op hop =>
    refine (h.serves ?_).both
    split
    · exact .endDrop rfl
    · split
      next hact => exact .stopAttempt hwf h.checked rfl fun op' hop' => Option.some.inj (hop'.symm.trans hop) ▸ hact
      next => exact .refl _

theorem Covered.commitConnection {id : OpId} {u : UserId} {g : Generation} {previous : Option Generation} (h : s.Covered)
    (hr : s.Recorded) : (s.commitConnection cfg id u g previous).1.Covered ∧ (s.commitConnection cfg id u g previous).1.Recorded := by
  unfold State.commitConnection
  split
  · exact ⟨h, hr⟩
  next op hop =>
    split
    · exact ⟨h, hr⟩
    · split
      · exact ⟨h, hr⟩
      next hcon =>
        split
        · exact ⟨h, hr⟩
        · split
          · exact ⟨h, hr⟩
          · simp only [ne_eq, Bool.or_eq_true, decide_eq_true_eq, not_or, Decidable.not_not] at hcon
            exact (h.serves (.commit hop hcon.2)).both

theorem Covered.credentials {u : UserId} {owner : Owner} (h : s.Covered) (hr : s.Recorded) (hwf : s.accounts.Wf)
    (hg : s.alive = false → s.snapshot = none → s.restartable = true ∧ (s.slotEnded = true → s.missed = false)) :
    (s.credentials cfg n u owner).1.Covered ∧ (s.credentials cfg n u owner).1.Recorded := by
  have h₁ := h.ensureStarted (n := n) hwf fun halive hsnap => (hg halive hsnap).1
  have hr₁ := hr.ensureStarted (n := n) hwf fun halive hsnap => (hg halive hsnap).2
  unfold State.credentials
  split
  · exact ⟨h, hr⟩
  · split
    next heq =>
      rw [heq] at h₁ hr₁
      exact ⟨h₁, hr₁⟩
    next heq =>
      rw [heq] at h₁ hr₁
      exact ⟨h₁, hr₁⟩

/-- A call that does not get Bridge started changes nothing that the journal has. -/
theorem Recorded.notStarted {e : WorkerError} (h : s.Recorded) (heq : s.ensureStarted n = (t, .error e)) : t.Recorded := by
  obtain ⟨heq', -⟩ | ⟨heq', -⟩ | ⟨-, -, ⟨_, -, heq'⟩ | ⟨-, heq'⟩⟩ := @ensureStarted_cases s n <;>
    rw [heq, Prod.mk.injEq] at heq'
  · cases heq'.2
  · exact heq'.1 ▸ h
  · cases heq'.2
  · rw [heq'.1]
    exact h.frame rfl rfl rfl rfl fun _ hu => hu

theorem others_linked {a : Accounts} {u : UserId} {email : Address}
    (h : (a.links.entries.any fun e => e.1.1 = u && e.1 ≠ (u, email)) = true) :
    Accounts.linked { a with links := a.links.erase (u, email) } u = true := by
  obtain ⟨⟨⟨v, email'⟩, g⟩, hmem, hcond⟩ := List.any_eq_true.mp h
  simp only [ne_eq, Bool.and_eq_true, decide_eq_true_eq] at hcond
  obtain ⟨rfl, hne⟩ := hcond
  exact Accounts.linked_eq_true.mpr ⟨email', g, (AList.lookup_erase_ne hne).trans (Table.mem_entries.mp hmem)⟩

theorem Covered.removeUser {u : UserId} {g : Generation} {email : Address} (h : s.Covered) (hr : s.Recorded) (hwf : s.accounts.Wf)
    (hg : s.alive = false → s.snapshot = none → s.restartable = true) :
    (s.removeUser cfg n u g email).1.Covered ∧ (s.removeUser cfg n u g email).1.Recorded := by
  unfold State.removeUser
  split
  · exact ⟨h, hr⟩
  · split
    · exact ⟨h, hr⟩
    · split
      · exact ⟨h, hr⟩
      · dsimp only
        have h₁ : (if (s.accounts.links.entries.any fun e => e.1.1 = u && e.1 ≠ (u, email)) = true then (s, .ok ())
            else s.ensureStarted n : State × Except WorkerError Unit).1.Covered := by
          split
          · exact h
          · exact h.ensureStarted hwf hg
        have hlinks : (if (s.accounts.links.entries.any fun e => e.1.1 = u && e.1 ≠ (u, email)) = true then (s, .ok ())
            else s.ensureStarted n : State × Except WorkerError Unit).1.accounts.links = s.accounts.links := by
          split
          · rfl
          · exact ensureStarted_links
        split
        next s₁ e heq =>
          rw [heq] at h₁
          refine ⟨h₁, ?_⟩
          split at heq
          · cases heq
          · exact hr.notStarted heq
        next s₁ heq =>
          rw [heq] at h₁ hlinks
          have hunlink : ∀ {b : Accounts}, ({ s₁.accounts with links := s₁.accounts.links.erase (u, email) } : Accounts).Serves
              (s₁.bridge.users.filter (· ≠ u)) s₁.initial s₁.now b → b.answered s₁.initial u = true →
              (State.persist { s₁ with accounts := b }).Covered ∧ (State.persist { s₁ with accounts := b }).Recorded := fun hb hu =>
            (h₁.serves (Accounts.Serves.except (Accounts.Serves.unlink.trans hb) hu)).both
          split
          next hothers =>
            have hlinked : Accounts.linked { s₁.accounts with links := s₁.accounts.links.erase (u, email) } u = true :=
              others_linked (hlinks ▸ hothers)
            exact hunlink (.refl _) (Accounts.answered_of_linked hlinked)
          next =>
            split
            next hhand => exact hunlink .handOver (Accounts.answered_handOver hhand)
            next =>
              refine hunlink ?_ (Accounts.answered_of_pending ?_)
              · split
                · exact .refl _
                · exact Accounts.Removes.beginRemoval.serves
              · split
                next hp => exact hp
                next =>
                  rw [Accounts.beginRemoval_lookup]
                  simp

end State

end MailExpert.ProtonWorker
