import MailExpert.GoogleGrants.Callbacks

/-!
# Revokes and connected mailboxes

A mailbox that is not flagged holds a token of its own address on its own app (`Holds`), so a revoke can end it only if the mailbox is bound
to the revoke's app when Google gets it. Where no revoke finds such a mailbox, and no callback stores tokens that ended before it saved them,
every mailbox that stays keeps a live token.
-/

namespace MailExpert.GoogleGrants

open TransitionSystem

variable {s s' t : State} {l : Label} {m : Mailbox} {grants grants' : List Grant}

/-- A removal of the mailbox has revoked, and goes on to delete the row. -/
def State.removing (s : State) (id : Nat) : Bool := s.removals.any fun r => r.accountId = id && r.stage = .revoked

/-- A mailbox that stays, and is not flagged, holds no refresh token that has ended. -/
def Connected (s : State) : Prop :=
  ∀ m ∈ s.mailboxes, m.reconnectRequired = false → s.removing m.id = false →
    ∀ grant, m.refresh = some grant → ∀ g, s.grants[grant]? = some g → g.ended = false

def State.isEnded (s : State) (grant : Nat) : Bool := s.grants[grant]?.any Grant.ended

/-- No mailbox works with the grant's address on its app, but for `except` and mailboxes on their way out. -/
def State.unused (s : State) (grant : Nat) (except : Option Nat) : Bool :=
  s.grants[grant]?.all fun g => s.mailboxes.all fun m =>
    !(m.address = g.address && m.app = some g.app && !m.reconnectRequired && m.refresh.isSome) || some m.id = except || s.removing m.id

def CallbackStage.saves : CallbackStage → Option Issued
  | .issued tokens => some tokens
  | _ => none

def CallbackStage.revokes : CallbackStage → Option Nat
  | .revoking tokens => some tokens.grant
  | _ => none

def RemovalStage.revokes : RemovalStage → Option Nat
  | .read grant => grant
  | _ => none

/-- The tokens that the callback would store are alive, unless the row they go to is on its way out. -/
def State.fresh (s : State) (c : Callback) (tokens : Issued) : Bool :=
  !(s.accepts c tokens && tokens.hasRefresh) || !s.isEnded tokens.grant || (s.existing tokens.address).any fun m => s.removing m.id

/-- A callback stores live tokens, and a revoke that Google takes finds no mailbox working with its address on its app. -/
def spares (s : State) : Label → Prop
  | .save i => s.callbacks[i]?.all (fun c => c.stage.saves.all (s.fresh c)) = true
  | .revokeRefused i ok => (!ok || s.callbacks[i]?.all fun c => c.stage.revokes.all fun grant => s.unused grant none) = true
  | .revokeLeft i ok => (!ok || s.leaving[i]?.all fun grant => s.unused grant none) = true
  | .revokeRemoved i ok => (!ok || s.removals[i]?.all fun r => r.stage.revokes.all fun grant => s.unused grant (some r.accountId)) = true
  | _ => True

/-- The mailbox's refresh token is of its address on its app, and alive unless the mailbox is on its way out. -/
def Holds (grants : List Grant) (removing : Nat → Bool) (m : Mailbox) : Prop :=
  ∀ grant, m.refresh = some grant →
    ∃ g, grants[grant]? = some g ∧ g.address = m.address ∧ m.app = some g.app ∧ (g.ended = true → removing m.id = true)

/-- The tokens of a callback are of the grant that Google issued it. -/
def Callback.Ok (grants : List Grant) (c : Callback) : Prop :=
  ∀ tokens, c.stage = .issued tokens → ∃ g, grants[tokens.grant]? = some g ∧ g.address = tokens.address ∧ g.app = c.app

structure Inv (s : State) : Prop where
  nodup : (s.mailboxes.map Mailbox.id).Nodup
  ids : ∀ m ∈ s.mailboxes, m.id < s.ids
  holds : ∀ m ∈ s.mailboxes, m.reconnectRequired = false → Holds s.grants s.removing m
  callbacks : ∀ c ∈ s.callbacks, c.Ok s.grants

theorem Inv.connected (h : Inv s) : Connected s := by
  intro m hm hflag hstays grant hgrant g hg
  obtain ⟨g', hg', -, -, hended⟩ := h.holds m hm hflag grant hgrant
  rw [hg] at hg'
  cases hg'
  cases hends : g.ended with
  | false => rfl
  | true => simp [hended hends] at hstays

/-- Grants stay, and may end where the mailbox is on its way out. -/
theorem Holds.later {removing removing' : Nat → Bool} (h : Holds grants removing m)
    (hremoving : removing m.id = true → removing' m.id = true)
    (hgrants : ∀ (k : Nat) g, m.refresh = some k → grants[k]? = some g → g.address = m.address → m.app = some g.app →
      ∃ g', grants'[k]? = some g' ∧ g'.address = g.address ∧ g'.app = g.app ∧ (g'.ended = true → g.ended = true ∨ removing' m.id = true)) :
    Holds grants' removing' m := by
  intro grant hgrant
  obtain ⟨g, hg, haddress, happ, hended⟩ := h grant hgrant
  obtain ⟨g', hg', haddress', happ', hended'⟩ := hgrants grant g hgrant hg haddress happ
  refine ⟨g', hg', haddress'.trans haddress, happ' ▸ happ, fun hends => ?_⟩
  obtain hwas | hgoes := hended' hends
  · exact hremoving (hended hwas)
  · exact hgoes

def Grows (grants grants' : List Grant) : Prop := ∀ (k : Nat) g, grants[k]? = some g → grants'[k]? = some g

theorem Grows.refl (grants : List Grant) : Grows grants grants := fun _ _ h => h

theorem Holds.grows {removing removing' : Nat → Bool} (h : Holds grants removing m) (hgrows : Grows grants grants')
    (hremoving : removing m.id = true → removing' m.id = true) : Holds grants' removing' m :=
  h.later hremoving fun k g _ hg _ _ => ⟨g, hgrows k g hg, rfl, rfl, .inl⟩

theorem Callback.Ok.grows {c : Callback} (h : c.Ok grants) (hgrows : Grows grants grants') : c.Ok grants' := fun tokens hstage => by
  obtain ⟨g, hg, hsame⟩ := h tokens hstage
  exact ⟨g, hgrows _ g hg, hsame⟩

/-- A callback that is past its tokens says nothing of them. -/
theorem Callback.ok_of_ne {c : Callback} (h : ∀ tokens, c.stage ≠ .issued tokens) : c.Ok grants := fun tokens hstage => absurd hstage (h tokens)

theorem mem_set_of {α : Type} {xs : List α} {a x : α} {i : Nat} (h : x ∈ xs.set i a) : x = a ∨ x ∈ xs := (List.mem_or_eq_of_mem_set h).symm

/-- The callbacks moved, and Google may have issued a grant. -/
theorem Inv.callback (h : Inv s) (hmailboxes : s'.mailboxes = s.mailboxes) (hids : s'.ids = s.ids) (hremovals : s'.removals = s.removals)
    (hgrows : Grows s.grants s'.grants) (hcallbacks : ∀ c ∈ s'.callbacks, c ∈ s.callbacks ∨ c.Ok s'.grants) : Inv s' where
  nodup := hmailboxes ▸ h.nodup
  ids := by rw [hmailboxes, hids]; exact h.ids
  holds m hm hflag := by
    rw [hmailboxes] at hm
    exact (h.holds m hm hflag).grows hgrows fun hr => by rwa [State.removing, hremovals]
  callbacks c hc := by
    obtain hold | hok := hcallbacks c hc
    · exact (h.callbacks c hold).grows hgrows
    · exact hok

/-- The state after a revoke that Google took, or did not. -/
def State.revokeIf (s : State) (ok : Bool) (grant : Nat) : State := if ok then s.revoke grant else s

theorem revokeIf_frame {ok : Bool} {grant : Nat} :
    (s.revokeIf ok grant).mailboxes = s.mailboxes ∧ (s.revokeIf ok grant).ids = s.ids ∧ (s.revokeIf ok grant).removals = s.removals ∧
      (s.revokeIf ok grant).callbacks = s.callbacks ∧ (s.revokeIf ok grant).leaving = s.leaving := by
  cases ok with
  | false => exact ⟨rfl, rfl, rfl, rfl, rfl⟩
  | true =>
    simp only [State.revokeIf, State.revoke, if_true]
    split <;> exact ⟨rfl, rfl, rfl, rfl, rfl⟩

/-- The grants after a revoke: each is there still, and one ended only if it was of the revoked grant's address and app. -/
theorem revokeIf_grants {ok : Bool} {grant k : Nat} {g : Grant} (h : s.grants[k]? = some g) :
    ∃ g', (s.revokeIf ok grant).grants[k]? = some g' ∧ g'.address = g.address ∧ g'.app = g.app ∧
      (g'.ended = true → g.ended = true ∨ (ok = true ∧ ∃ revoked, s.grants[grant]? = some revoked ∧ g.address = revoked.address ∧ g.app = revoked.app)) := by
  cases ok with
  | false => exact ⟨g, h, rfl, rfl, .inl⟩
  | true =>
    simp only [State.revokeIf, State.revoke, if_true]
    split
    next => exact ⟨g, h, rfl, rfl, .inl⟩
    next revoked hrevoked =>
      refine ⟨_, by rw [List.getElem?_map, h]; rfl, ?_⟩
      dsimp only
      split
      next hsame => exact ⟨rfl, rfl, fun _ => .inr ⟨trivial, revoked, hrevoked, hsame⟩⟩
      next => exact ⟨rfl, rfl, .inl⟩

theorem unused_spec {grant : Nat} {except : Option Nat} (h : s.unused grant except = true) {g : Grant} (hg : s.grants[grant]? = some g)
    (hm : m ∈ s.mailboxes) (haddress : m.address = g.address) (happ : m.app = some g.app) (hflag : m.reconnectRequired = false)
    (hrefresh : m.refresh.isSome = true) : some m.id = except ∨ s.removing m.id = true := by
  simp only [State.unused, hg, Option.all_some, List.all_eq_true] at h
  simpa [haddress, happ, hflag, hrefresh] using h m hm

/-- A revoke that finds no mailbox at work but the one it removes. -/
theorem Inv.revoke (h : Inv s) {ok : Bool} {grant : Nat} {except : Option Nat} (hunused : ok = true → s.unused grant except = true)
    (hmailboxes : s'.mailboxes = s.mailboxes) (hids : s'.ids = s.ids) (hgrants : s'.grants = (s.revokeIf ok grant).grants)
    (hremoving : ∀ id, s.removing id = true → s'.removing id = true) (hexcept : ∀ id, some id = except → s'.removing id = true)
    (hcallbacks : ∀ c ∈ s'.callbacks, c ∈ s.callbacks ∨ ∀ tokens, c.stage ≠ .issued tokens) : Inv s' where
  nodup := hmailboxes ▸ h.nodup
  ids := by rw [hmailboxes, hids]; exact h.ids
  holds m hm hflag := by
    rw [hmailboxes] at hm
    rw [hgrants]
    refine (h.holds m hm hflag).later (hremoving m.id) fun k g hk hg haddress happ => ?_
    obtain ⟨g', hg', haddress', happ', hended⟩ := @revokeIf_grants s ok grant k g hg
    refine ⟨g', hg', haddress', happ', fun hends => (hended hends).imp_right ?_⟩
    rintro ⟨hok, revoked, hrevoked, hsameAddress, hsameApp⟩
    have hfound := unused_spec (hunused hok) hrevoked hm (haddress.symm.trans hsameAddress) (hsameApp ▸ happ) hflag (by rw [hk]; rfl)
    exact hfound.elim (hexcept m.id) (hremoving m.id)
  callbacks c hc := by
    obtain hold | hpast := hcallbacks c hc
    · intro tokens hstage
      obtain ⟨g, hg, haddress, happ⟩ := h.callbacks c hold tokens hstage
      obtain ⟨g', hg', haddress', happ', -⟩ := @revokeIf_grants s ok grant _ g hg
      exact ⟨g', hgrants ▸ hg', haddress'.trans haddress, happ'.trans happ⟩
    · exact Callback.ok_of_ne hpast

/-! ### A save -/

theorem accepts_spec {c : Callback} {tokens : Issued} (h : s.accepts c tokens = true) (hfound : s.existing tokens.address = some m)
    (hno : tokens.hasRefresh = false) : m.refresh.isSome = true ∧ m.app = some c.app ∧ m.reconnectRequired = false := by
  simp only [State.accepts, hfound, Bool.and_eq_true, Bool.not_eq_true'] at h
  have hrefuses := h.2
  simp only [State.refuses] at hrefuses
  split at hrefuses
  next => cases hrefuses
  next => simp_all
  next => cases hrefuses
  next heq =>
    cases heq
    simp only [hno, Bool.not_false, Bool.true_and, Bool.or_eq_false_iff, Bool.not_eq_false', Bool.and_eq_true, decide_eq_true_eq,
      Bool.not_eq_true'] at hrefuses
    exact ⟨hrefuses.2.1.1, hrefuses.2.1.2, hrefuses.2.2⟩

/-- A new mailbox takes a refresh token. -/
theorem accepts_new {c : Callback} {tokens : Issued} (h : s.accepts c tokens = true) (hfound : s.existing tokens.address = none) :
    tokens.hasRefresh = true := by
  simp only [State.accepts, hfound, Bool.and_eq_true, Bool.not_eq_true'] at h
  have hrefuses := h.2
  simp only [State.refuses] at hrefuses
  split at hrefuses
  next heq => cases heq
  next => simpa using hrefuses
  next => cases hrefuses
  next heq => cases heq

/-- What a save stores in a row is what the mailbox held, or fresh tokens. -/
theorem Inv.save (h : Inv s) {c : Callback} {tokens : Issued} {i : Nat} (hc : c ∈ s.callbacks) (hstage : c.stage = .issued tokens)
    (haccepts : s.accepts c tokens = true) (hfresh : s.fresh c tokens = true) :
    Inv ((s.saved c tokens).setCallback i { c with stage := .finished }) := by
  obtain ⟨g, hg, haddress, happ⟩ := h.callbacks c hc tokens hstage
  have hcallbacks : ∀ callbacks : List Callback, callbacks = s.callbacks →
      ∀ c' ∈ callbacks.set i { c with stage := .finished }, c'.Ok s.grants := fun callbacks heq c' hc' => by
    obtain rfl | hold := mem_set_of hc'
    · exact Callback.ok_of_ne fun _ hne => by cases hne
    · exact h.callbacks c' (heq ▸ hold)
  have halive : tokens.hasRefresh = true → g.ended = true → (s.existing tokens.address).any (fun m => s.removing m.id) = true := fun hhas hends => by
    simpa [State.fresh, haccepts, hhas, State.isEnded, hg, hends] using hfresh
  cases hfound : s.existing tokens.address with
  | none =>
    simp only [State.saved, hfound]
    refine ⟨?_, fun m hm => ?_, fun m hm hflag => ?_, hcallbacks _ rfl⟩
    · simp only [State.setCallback, List.map_append, List.map_cons, List.map_nil, List.nodup_append]
      refine ⟨h.nodup, List.nodup_singleton _, ?_⟩
      rintro id hid new hnew rfl
      obtain ⟨m, hm, rfl⟩ := List.mem_map.mp hid
      have := h.ids m hm
      have := List.mem_singleton.mp hnew
      omega
    · obtain hm | hm := List.mem_append.mp hm
      · exact (h.ids m hm).trans (Nat.lt_succ_self _)
      · rw [List.mem_singleton.mp hm]
        exact Nat.lt_succ_self _
    · obtain hm | hm := List.mem_append.mp hm
      · exact h.holds m hm hflag
      · obtain rfl := List.mem_singleton.mp hm
        intro grant hgrant
        obtain rfl : tokens.grant = grant := by simpa [accepts_new haccepts hfound] using hgrant
        refine ⟨g, hg, haddress, congrArg some happ.symm, fun hends => ?_⟩
        have := halive (accepts_new haccepts hfound) hends
        simp [hfound] at this
  | some found =>
    have hmem : found ∈ s.mailboxes := List.mem_of_find?_eq_some hfound
    have hsameAddress : found.address = tokens.address := by simpa using List.find?_some hfound
    simp only [State.saved, hfound]
    refine ⟨?_, fun m hm => ?_, fun m hm hflag => ?_, hcallbacks _ rfl⟩
    · have hids : (s.mailboxes.map fun other => if other.id = found.id then State.rewritten c tokens other else other).map Mailbox.id =
          s.mailboxes.map Mailbox.id := by
        rw [List.map_map]
        refine List.map_congr_left fun other _ => ?_
        simp only [Function.comp_apply]
        split <;> rfl
      exact hids ▸ h.nodup
    · obtain ⟨other, hother, rfl⟩ := List.mem_map.mp hm
      have := h.ids other hother
      split <;> exact this
    · obtain ⟨other, hother, rfl⟩ := List.mem_map.mp hm
      by_cases hid : other.id = found.id
      · obtain rfl : other = found := List.inj_on_of_nodup_map h.nodup hother hmem hid
        rw [if_pos rfl]
        intro grant hgrant
        cases hhas : tokens.hasRefresh with
        | true =>
          obtain rfl : tokens.grant = grant := by simpa [State.rewritten, hhas] using hgrant
          refine ⟨g, hg, haddress.trans hsameAddress.symm, congrArg some happ.symm, fun hends => ?_⟩
          have hremoving : s.removing other.id = true := by simpa [hfound] using halive hhas hends
          exact hremoving
        | false =>
          -- the stored token is kept: the mailbox stays on its app, and was not flagged
          obtain ⟨-, hsameApp, hunflagged⟩ := accepts_spec haccepts hfound hhas
          obtain ⟨g', hg', haddress', happ', hended'⟩ := h.holds other hmem hunflagged grant (by simpa [State.rewritten, hhas] using hgrant)
          exact ⟨g', hg', haddress', hsameApp.symm.trans happ', hended'⟩
      · rw [if_neg hid] at hflag ⊢
        exact h.holds other hother hflag

/-! ## Runs -/

theorem Callback.step_inv (h : Inv s) {i : Nat} {c : Callback} (hc : s.callbacks[i]? = some c) (hspares : spares s l)
    (hl : ∀ j, l = .save j ∨ (∃ ok, l = .revokeRefused j ok) → j = i) (hstep : c.step s i l = some s') : Inv s' := by
  have hmem := List.mem_of_getElem? hc
  cases l <;> simp only [Callback.step, reduceCtorEq] at hstep
  case exchange j address sub hasRefresh mailScope =>
    split at hstep <;> cases hstep
    have hgrows : Grows s.grants (s.grants ++ [({ address, app := c.app } : Grant)]) := fun k g hk =>
      Agents.getElem?_append_some.mpr (.inl hk)
    refine h.callback rfl rfl rfl hgrows fun c' hc' => ?_
    obtain rfl | hold := mem_set_of hc'
    · refine .inr fun tokens hstage => ?_
      cases hstage
      exact ⟨_, Agents.getElem?_append_some.mpr (.inr ⟨rfl, rfl⟩), rfl, rfl⟩
    · exact .inl hold
  case breakOff =>
    split at hstep <;> cases hstep <;>
    · refine h.callback rfl rfl rfl (.refl _) fun c' hc' => (mem_set_of hc').symm.imp_right ?_
      rintro rfl
      exact Callback.ok_of_ne fun _ hne => by cases hne
  case save j =>
    obtain rfl := hl j (.inl rfl)
    split at hstep
    next tokens hstage =>
      split at hstep <;> cases hstep
      next haccepts =>
        refine h.save hmem hstage haccepts ?_
        simpa [spares, hc, hstage, CallbackStage.saves] using hspares
      next =>
        refine h.callback rfl rfl rfl (.refl _) fun c' hc' => (mem_set_of hc').symm.imp_right ?_
        rintro rfl
        exact Callback.ok_of_ne fun _ hne => by cases hne
    next => cases hstep
  case lookUp =>
    split at hstep <;> cases hstep
    refine h.callback rfl rfl rfl (.refl _) fun c' hc' => (mem_set_of hc').symm.imp_right ?_
    rintro rfl
    refine Callback.ok_of_ne fun _ hne => ?_
    dsimp only at hne
    split at hne <;> cases hne
  case revokeRefused j ok =>
    obtain rfl := hl j (.inr ⟨ok, rfl⟩)
    split at hstep
    next tokens hstage =>
      cases hstep
      obtain ⟨hmailboxes, hids, hremovals, hcallbacks, -⟩ := @revokeIf_frame s ok tokens.grant
      have hunused : ok = true → s.unused tokens.grant none = true := fun hok => by
        simpa [spares, hok, hc, hstage, CallbackStage.revokes] using hspares
      refine h.revoke hunused hmailboxes hids rfl (fun id hr => ?_) (fun id hnone => by cases hnone) fun c' hc' => ?_
      · exact (congrArg (fun rs : List Removal => rs.any fun r => r.accountId = id && r.stage = .revoked) hremovals).trans hr
      · obtain rfl | hold := mem_set_of hc'
        · exact .inr fun _ hne => by cases hne
        · exact .inl (hcallbacks ▸ hold)
    next => cases hstep

theorem removing_set {i : Nat} {r r' : Removal} {removals : List Removal} (hr : removals[i]? = some r) (hstage : r.stage ≠ .revoked) {id : Nat}
    (h : (removals.any fun r => r.accountId = id && r.stage = .revoked) = true) :
    ((removals.set i r').any fun r => r.accountId = id && r.stage = .revoked) = true := by
  obtain ⟨other, hother, hid⟩ := List.any_eq_true.mp h
  obtain ⟨j, hj⟩ := List.getElem?_of_mem hother
  refine List.any_eq_true.mpr ⟨other, List.mem_of_getElem? ((Agents.getElem?_set_some hr).mpr (.inr ⟨?_, hj⟩)), hid⟩
  rintro rfl
  cases hr.symm.trans hj
  simp only [Bool.and_eq_true, decide_eq_true_eq] at hid
  exact hstage hid.2

theorem Removal.step_inv (h : Inv s) {i : Nat} {r : Removal} (hr : s.removals[i]? = some r) (hspares : spares s l)
    (hl : ∀ j ok, l = .revokeRemoved j ok → j = i) (hstep : r.step s i l = some s') : Inv s' := by
  cases l <;> simp only [Removal.step, reduceCtorEq] at hstep
  case revokeRemoved j ok =>
    obtain rfl := hl j ok rfl
    split at hstep
    next grant hstage =>
      cases hstep
      obtain ⟨hmailboxes, hids, hremovals, hcallbacks, -⟩ := @revokeIf_frame s ok grant
      have hunused : ok = true → s.unused grant (some r.accountId) = true := fun hok => by
        simpa [spares, hok, hr, hstage, RemovalStage.revokes] using hspares
      refine h.revoke hunused hmailboxes hids rfl (fun id hrem => ?_) (fun id hid => ?_) fun c hc => .inl (hcallbacks ▸ hc)
      · have hset := @removing_set j r { r with stage := .revoked } _ hr (by rw [hstage]; intro hne; cases hne) id hrem
        exact (congrArg (fun rs : List Removal => (rs.set j { r with stage := .revoked }).any fun r => r.accountId = id && r.stage = .revoked) hremovals).trans hset
      · cases hid
        refine List.any_eq_true.mpr ⟨{ r with stage := .revoked }, ?_, by simp⟩
        refine List.mem_of_getElem? (i := j) ?_
        exact (congrArg (fun rs : List Removal => (rs.set j { r with stage := .revoked })[j]?) hremovals).trans
          ((Agents.getElem?_set_some hr).mpr (.inl ⟨rfl, rfl⟩))
    next hstage =>
      cases hstep
      refine ⟨h.nodup, h.ids, fun m hm hflag => (h.holds m hm hflag).grows (.refl _) fun hrem => ?_, h.callbacks⟩
      exact removing_set hr (by rw [hstage]; intro hne; cases hne) hrem
    next => cases hstep
  case delete j =>
    split at hstep <;> cases hstep
    refine ⟨h.nodup.sublist (List.filter_sublist.map _), fun m hm => h.ids m (List.mem_filter.mp hm).1, fun m hm hflag => ?_, h.callbacks⟩
    obtain ⟨hm, hne⟩ := List.mem_filter.mp hm
    refine (h.holds m hm hflag).grows (.refl _) fun hrem => ?_
    -- the removal of another mailbox
    obtain ⟨other, hother, hid⟩ := List.any_eq_true.mp hrem
    obtain ⟨k, hk⟩ := List.getElem?_of_mem hother
    refine List.any_eq_true.mpr ⟨other, List.mem_of_getElem? ((Agents.getElem?_set_some hr).mpr (.inr ⟨?_, hk⟩)), hid⟩
    rintro rfl
    cases hr.symm.trans hk
    simp only [Bool.and_eq_true, decide_eq_true_eq] at hid
    simp [hid.1] at hne

theorem inv_step (h : Inv s) (hspares : spares s l) (hstep : step s l = some s') : Inv s' := by
  cases l with
  | callback =>
    cases hstep
    refine h.callback rfl rfl rfl (.refl _) fun c hc => (List.mem_append.mp hc).imp_right fun hc => ?_
    rw [List.mem_singleton.mp hc]
    exact Callback.ok_of_ne fun _ hne => by cases hne
  | exchange i | breakOff i | save i | lookUp i | revokeRefused i =>
    obtain ⟨c, hc, hstep⟩ := Option.bind_eq_some_iff.mp hstep
    exact Callback.step_inv h hc hspares (by rintro j (heq | ⟨ok, heq⟩) <;> simp_all) hstep
  | revokeLeft i ok =>
    obtain ⟨grant, hgrant, rfl⟩ := Option.map_eq_some_iff.mp hstep
    obtain ⟨hmailboxes, hids, hremovals, hcallbacks, -⟩ := @revokeIf_frame s ok grant
    have hunused : ok = true → s.unused grant none = true := fun hok => by simpa [spares, hok, hgrant] using hspares
    refine h.revoke hunused hmailboxes hids rfl (fun id hr => ?_) (fun id hnone => by cases hnone) fun c hc => .inl (hcallbacks ▸ hc)
    exact (congrArg (fun rs : List Removal => rs.any fun r => r.accountId = id && r.stage = .revoked) hremovals).trans hr
  | remove =>
    obtain ⟨m, -, rfl⟩ := Option.map_eq_some_iff.mp hstep
    refine ⟨h.nodup, h.ids, fun m hm hflag => (h.holds m hm hflag).grows (.refl _) fun hr => ?_, h.callbacks⟩
    simp only [State.removing, List.any_append, Bool.or_eq_true]
    exact .inl hr
  | revokeRemoved i | delete i =>
    obtain ⟨r, hr, hstep⟩ := Option.bind_eq_some_iff.mp hstep
    exact Removal.step_inv h hr hspares (by rintro j ok heq; simp_all) hstep
  | markReconnect accountId =>
    cases hstep
    refine ⟨?_, fun m hm => ?_, fun m hm hflag => ?_, h.callbacks⟩
    · have hids : (s.mailboxes.map fun m => if m.id = accountId then { m with reconnectRequired := true } else m).map Mailbox.id =
          s.mailboxes.map Mailbox.id := by
        rw [List.map_map]
        refine List.map_congr_left fun other _ => ?_
        simp only [Function.comp_apply]
        split <;> rfl
      exact hids ▸ h.nodup
    · obtain ⟨other, hother, rfl⟩ := List.mem_map.mp hm
      have := h.ids other hother
      split <;> exact this
    · obtain ⟨other, hother, rfl⟩ := List.mem_map.mp hm
      by_cases hid : other.id = accountId
      · simp [hid] at hflag
      · rw [if_neg hid] at hflag ⊢
        exact h.holds other hother hflag

theorem inv_invariant : system.Invariant spares Inv where
  init := by
    rintro s ⟨hcallbacks, hremovals, -, hnodup, hids, hworks⟩
    refine ⟨hnodup, hids, fun m hm hflag grant hgrant => ?_, fun c hc => ?_⟩
    · obtain ⟨g, hg, haddress, happ, halive⟩ := hworks m hm hflag grant hgrant
      exact ⟨g, hg, haddress, happ, fun hends => by simp [halive] at hends⟩
    · simp [hcallbacks] at hc
  step h hspares hstep := inv_step h hspares hstep

namespace Sample

instance (s : State) (l : Label) : Decidable (spares s l) :=
  match l with
  | .save i => inferInstanceAs (Decidable (s.callbacks[i]?.all (fun c => c.stage.saves.all (s.fresh c)) = true))
  | .revokeRefused i ok =>
    inferInstanceAs (Decidable ((!ok || s.callbacks[i]?.all fun c => c.stage.revokes.all fun grant => s.unused grant none) = true))
  | .revokeLeft i ok => inferInstanceAs (Decidable ((!ok || s.leaving[i]?.all fun grant => s.unused grant none) = true))
  | .revokeRemoved i ok =>
    inferInstanceAs (Decidable ((!ok || s.removals[i]?.all fun r => r.stage.revokes.all fun grant => s.unused grant (some r.accountId)) = true))
  | .callback .. | .exchange .. | .breakOff _ | .lookUp _ | .remove _ | .delete _ | .markReconnect _ => .isTrue trivial

/-- One mailbox, on the app 0. -/
def connected : State where
  grants := [⟨"a@x", 0, false⟩]
  mailboxes := [⟨0, "a@x", true, some 0, some 7, some 0, some 0, false⟩]
  ids := 1

theorem connected_init : system.init connected := by
  refine ⟨rfl, rfl, rfl, by decide, by decide, fun m hm _ grant hgrant => ?_⟩
  obtain rfl := List.mem_singleton.mp hm
  cases hgrant
  exact ⟨_, rfl, rfl, rfl, rfl⟩

def reconnect (i app : Nat) : List Label := [.callback (.reconnect 0) "a@x" app, .exchange i "a@x" 7 true true, .save i]

end Sample

end MailExpert.GoogleGrants
