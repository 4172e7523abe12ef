import MailExpert.OAuth.Forced

/-!
# A forced refresh gives another token

A refresh that answers from the row gives a token that expires later than the one it was started for; one that asks the provider gives a
token that was not there when it read the row (`RunGood`). So it serves every caller whose token is old enough (`Run.serves`).
-/

namespace MailExpert.OAuth.Forced

variable {κ : Type} {s s' : State κ} {run run' : Run κ} {call : Call κ} {account account' row row' a : Account κ} {force : Bool} {now : Int}
  {i j : Nat} {l : Label κ} {token : κ} {issued : List (κ × Option Int)} {phase : Phase κ}

def Issued (issued : List (κ × Option Int)) (account : Account κ) : Prop :=
  ∀ token, account.oauth_access_token = some token → (token, account.oauth_token_expiry) ∈ issued

def New (issued : List (κ × Option Int)) (account : Account κ) : Prop :=
  ∀ token, account.oauth_access_token = some token → ∀ expiry, (token, expiry) ∉ issued

def SameGrant (row account : Account κ) : Prop :=
  row.oauth_refresh_token = account.oauth_refresh_token ∧ row.oauth_app_id = account.oauth_app_id ∧
    row.oauth_public_client = account.oauth_public_client

structure RunGood (s : State κ) (run : Run κ) : Prop where
  known : ∀ account known, run.asked = some (account, known) → known ⊆ s.issued ∧
    ∀ row, s.row = some row → SameGrant row account ∨ New known row
  missed : run.missed = true → ∃ account known, run.asked = some (account, known) ∧ ∀ row, s.row = some row → New known row
  issued : ∀ a, run.result = some (some a) → Issued s.issued a
  result : ∀ a, run.result = some (some a) → match run.asked with
    | none => run.force = true → expiresLater a run.account = true
    | some (_, known) => New known a

structure Moves (s s' : State κ) : Prop where
  issued : s.issued ⊆ s'.issued
  row : ∀ row', s'.row = some row' →
    (∃ row, s.row = some row ∧ (∀ account, SameGrant row account → SameGrant row' account) ∧
      row'.oauth_access_token = row.oauth_access_token) ∨ New s.issued row'

theorem Issued.mono (h : Issued s.issued account) (hsub : s.issued ⊆ s'.issued) : Issued s'.issued account :=
  fun token htoken => hsub (h token htoken)

theorem New.mono {known : List (κ × Option Int)} (h : New issued account) (hsub : known ⊆ issued) : New known account :=
  fun token htoken expiry hmem => h token htoken expiry (hsub hmem)

theorem Moves.refl (hissued : s'.issued = s.issued) (hrow : s'.row = s.row) : Moves s s' :=
  ⟨fun _ h => hissued ▸ h, fun row h => .inl ⟨row, hrow ▸ h, fun _ h => h, rfl⟩⟩

theorem RunGood.moves (h : RunGood s run) (hm : Moves s s') : RunGood s' run where
  known account known hasked := by
    obtain ⟨hsub, hrows⟩ := h.known account known hasked
    refine ⟨fun _ hmem => hm.issued (hsub hmem), fun row' hrow' => ?_⟩
    rcases hm.row row' hrow' with ⟨row, hrow, hgrant, htoken⟩ | hnew
    · refine (hrows row hrow).imp (hgrant account) fun hnew token ht => hnew token (htoken ▸ ht)
    · exact .inr (hnew.mono hsub)
  missed hmissed := by
    obtain ⟨account, known, hasked, hrows⟩ := h.missed hmissed
    refine ⟨account, known, hasked, fun row' hrow' => ?_⟩
    rcases hm.row row' hrow' with ⟨row, hrow, -, htoken⟩ | hnew
    · exact fun token ht => hrows row hrow token (htoken ▸ ht)
    · exact hnew.mono (h.known account known hasked).1
  issued a ha := (h.issued a ha).mono hm.issued
  result := h.result

def Unique (issued : List (κ × Option Int)) : Prop := ∀ token expiry expiry', (token, expiry) ∈ issued → (token, expiry') ∈ issued →
  expiry = expiry'

theorem expiresLater_irrefl : expiresLater account account = false := by
  unfold expiresLater
  cases account.oauth_token_expiry <;> simp

theorem expiresLater_congr (h : account.oauth_token_expiry = account'.oauth_token_expiry) :
    expiresLater account row = expiresLater account' row := by
  unfold expiresLater
  rw [h]

/-- Accounts of which one expires later have two tokens. -/
theorem Unique.differs (hunique : Unique issued) (ha : Issued issued a) (haccount : Issued issued account)
    (hlater : expiresLater a row = true) (hnot : expiresLater account row = false) (htoken : account.oauth_access_token = some token) :
    a.oauth_access_token ≠ some token := by
  intro hsame
  have hexpiry := hunique token _ _ (ha token hsame) (haccount token htoken)
  rw [expiresLater_congr hexpiry, hnot] at hlater
  cases hlater

variable [DecidableEq κ]

theorem serves_asked {known : List (κ × Option Int)} (hasked : run.asked = some (row, known)) (h : run.serves account = true) :
    Issued known account := by
  unfold Run.serves at h
  rw [hasked] at h
  intro token htoken
  simpa [pair, htoken] using h

theorem serves_of_issued {known : List (κ × Option Int)} (hasked : run.asked = some (row, known)) (h : Issued known account) :
    run.serves account = true := by
  unfold Run.serves
  rw [hasked]
  cases htoken : account.oauth_access_token with
  | none => simp [pair, htoken]
  | some token => simpa [pair, htoken] using h token htoken

/-- What a refresh answers is not the token of a caller it serves. -/
theorem RunGood.serves (h : RunGood s run) (hunique : Unique s.issued) (hresult : run.result = some (some a)) (hforce : run.force = true)
    (hserves : run.serves account = true) (haccount : Issued s.issued account) (htoken : account.oauth_access_token = some token) :
    a.oauth_access_token ≠ some token := by
  have hresult' := h.result a hresult
  cases hasked : run.asked with
  | none =>
    rw [hasked] at hresult'
    unfold Run.serves at hserves
    rw [hasked] at hserves
    exact hunique.differs (h.issued a hresult) haccount (hresult' hforce) (by simpa using hserves) htoken
  | some asked =>
    obtain ⟨row, known⟩ := asked
    rw [hasked] at hresult'
    intro hsame
    exact hresult' token hsame _ (serves_asked hasked hserves token htoken)

def PhaseGood (s : State κ) (account : Account κ) (force : Bool) : Phase κ → Prop
  | .awaits i => ∃ run, s.runs[i]? = some run ∧ (force = true → run.force = true ∧ run.serves account = true)
  | .checks i => ∃ run, s.runs[i]? = some run
  | .done result => force = true → ∀ a, result = some a → ∀ token, account.oauth_access_token = some token → a.oauth_access_token ≠ some token

structure CallGood (s : State κ) (call : Call κ) : Prop where
  issued : Issued s.issued call.account
  phase : PhaseGood s call.account call.force call.phase

structure Good (s : State κ) : Prop where
  unique : Unique s.issued
  row : ∀ row, s.row = some row → Issued s.issued row
  runs : ∀ (i : Nat) run, s.runs[i]? = some run → RunGood s run
  calls : ∀ (j : Nat) call, s.calls[j]? = some call → CallGood s call

def Goes (s s' : State κ) : Prop := ∀ (i : Nat) run, s.runs[i]? = some run → ∃ run', s'.runs[i]? = some run' ∧ run'.force = run.force ∧
  ∀ account, Issued s.issued account → run.serves account = true → run'.serves account = true

theorem Goes.refl (h : s'.runs = s.runs) : Goes s s' := fun _ run hi => ⟨run, h ▸ hi, rfl, fun _ _ h => h⟩

theorem CallGood.goes (h : CallGood s call) (hm : s.issued ⊆ s'.issued) (hg : Goes s s') : CallGood s' call := by
  refine ⟨h.issued.mono hm, ?_⟩
  have hphase := h.phase
  cases hcall : call.phase with
  | awaits i =>
    rw [hcall] at hphase
    obtain ⟨run, hi, hrun⟩ := hphase
    obtain ⟨run', hi', hforce, hserves⟩ := hg i run hi
    exact ⟨run', hi', fun h' => ⟨hforce.trans (hrun h').1, hserves _ h.issued (hrun h').2⟩⟩
  | checks i =>
    rw [hcall] at hphase
    obtain ⟨run, hi⟩ := hphase
    obtain ⟨run', hi', -⟩ := hg i run hi
    exact ⟨run', hi'⟩
  | done result =>
    rw [hcall] at hphase
    exact hphase

theorem Goes.set (hi : s.runs[i]? = some run) (hforce : run'.force = run.force)
    (hserves : ∀ account, Issued s.issued account → run.serves account = true → run'.serves account = true) {row : Option (Account κ)}
    {issued : List (κ × Option Int)} : Goes s { s with row, issued, runs := s.runs.set i run' } := by
  intro k other hk
  by_cases hik : i = k
  · subst hik
    rw [hi] at hk
    cases hk
    exact ⟨run', (Agents.getElem?_set_some hi).mpr (.inl ⟨rfl, rfl⟩), hforce, hserves⟩
  · exact ⟨other, (Agents.getElem?_set_some hi).mpr (.inr ⟨hik, hk⟩), rfl, fun _ _ h => h⟩

theorem Good.set (h : Good s) (hi : s.runs[i]? = some run) {row : Option (Account κ)} {issued : List (κ × Option Int)}
    (hm : Moves s { s with row, issued, runs := s.runs.set i run' }) (hunique : Unique issued) (hrow : ∀ r, row = some r → Issued issued r)
    (hrun : RunGood { s with row, issued, runs := s.runs.set i run' } run') (hforce : run'.force = run.force)
    (hserves : ∀ account, Issued s.issued account → run.serves account = true → run'.serves account = true) :
    Good { s with row, issued, runs := s.runs.set i run' } := by
  refine ⟨hunique, hrow, fun k other hk => ?_, fun j call hj => (h.calls j call hj).goes hm.issued (.set hi hforce hserves)⟩
  rcases (Agents.getElem?_set_some hi).mp hk with ⟨-, rfl⟩ | ⟨-, hk⟩
  · exact hrun
  · exact (h.runs k other hk).moves hm

theorem Good.fails (h : Good s) (hi : s.runs[i]? = some run) : Good (s.settle i run none) := by
  have hrun : RunGood (s.settle i run none) run := (h.runs i run hi).moves (.refl rfl rfl)
  refine h.set hi (.refl rfl rfl) h.unique h.row ⟨hrun.known, hrun.missed, fun a ha => ?_, fun a ha => ?_⟩ rfl fun _ _ h => h
  · cases ha
  · cases ha

theorem Good.settles (h : Good s) (hi : s.runs[i]? = some run) (hissued : Issued s.issued a)
    (hresult : match run.asked with
      | none => run.force = true → expiresLater a run.account = true
      | some (_, known) => New known a) : Good (s.settle i run (some a)) := by
  have hrun : RunGood (s.settle i run (some a)) run := (h.runs i run hi).moves (.refl rfl rfl)
  refine h.set hi (.refl rfl rfl) h.unique h.row ⟨hrun.known, hrun.missed, fun b hb => ?_, fun b hb => ?_⟩ rfl fun _ _ h => h
  · cases hb
    exact hissued
  · cases hb
    exact hresult

/-! ## Writes -/

theorem Unique.draws (hunique : Unique s.issued) {access : Option κ} {expiry : Option Int} (hdraws : s.draws access = true) :
    Unique (s.issued ++ (access.map (·, expiry)).toList) := by
  cases access with
  | none => simpa using hunique
  | some drawn =>
    have hfresh : ∀ e, (drawn, e) ∉ s.issued := fun e hmem => by
      have := List.all_eq_true.mp hdraws _ hmem
      simp at this
    intro token e e' he he'
    simp only [Option.map_some, Option.toList_some, List.mem_append, List.mem_singleton, Prod.mk.injEq] at he he'
    rcases he with he | ⟨htoken, he⟩ <;> rcases he' with he' | ⟨htoken', he'⟩
    · exact hunique token e e' he he'
    · exact absurd (htoken' ▸ he) (hfresh e)
    · exact absurd (htoken ▸ he') (hfresh e')
    · exact he.trans he'.symm

/-- A token that the provider draws was not there. -/
theorem new_of_draws {access : Option κ} (hdraws : s.draws access = true) (hrow : row.oauth_access_token = access) : New s.issued row := by
  intro token htoken expiry hmem
  have := List.all_eq_true.mp (by simpa [State.draws, ← hrow, htoken] using hdraws : (s.issued.all (·.1 ≠ token)) = true) _ hmem
  simp at this

theorem save_some {tokens : Tokens} {access refresh : Option κ} (h : save row account tokens access refresh = some row') :
    row'.oauth_access_token = access ∧ row'.oauth_token_expiry = some tokens.expiry := by
  unfold save saveMicrosoft saveGoogle at h
  split at h <;> (split at h <;> cases h) <;> exact ⟨rfl, rfl⟩

/-- A write misses the row only where the grant is another. -/
theorem save_none {tokens : Tokens} {access refresh : Option κ} (h : save row account tokens access refresh = none) :
    ¬ SameGrant row account := by
  rintro ⟨hrefresh, happ, hpublic⟩
  unfold save saveMicrosoft saveGoogle at h
  split at h
  · rw [if_pos ⟨hrefresh, hpublic⟩] at h
    cases h
  · rw [if_pos ⟨hrefresh, happ⟩] at h
    cases h

theorem sameGrant_iff : sameGrant row row' = true ↔ SameGrant row row' ∧ pair row = pair row' := by
  simp only [sameGrant, SameGrant, Bool.and_eq_true, decide_eq_true_eq]
  tauto

theorem Good.commit (h : Good s) {row : Option (Account κ)} (hstep : step s (.commit row) = some s') : Good s' := by
  simp only [step] at hstep
  split at hstep
  case isFalse => cases hstep
  case isTrue hwritten =>
    cases hstep
    have hissued : ∀ r, row = some r → Issued (s.issued ++ (row.bind pair).toList) r := by
      rintro r rfl token htoken
      simp [pair, htoken]
    have hrest : Moves s { s with row, issued := s.issued ++ (row.bind pair).toList } → Unique (s.issued ++ (row.bind pair).toList) →
        Good { s with row, issued := s.issued ++ (row.bind pair).toList } := fun hm hunique =>
      ⟨hunique, hissued, fun i run hi => (h.runs i run hi).moves hm, fun j call hj => (h.calls j call hj).goes hm.issued (.refl rfl)⟩
    rw [Bool.or_eq_true] at hwritten
    rcases hwritten with hsame | hdraws
    · obtain ⟨old, hold, hsame⟩ := (Option.any_eq_true _ _).mp hsame
      obtain ⟨r, rfl, hsame⟩ := (Option.any_eq_true _ _).mp hsame
      obtain ⟨hgrant, hpair⟩ := sameGrant_iff.mp hsame
      have hsub : (pair r).toList ⊆ s.issued := by
        intro p hp
        rw [← hpair] at hp
        cases htoken : old.oauth_access_token with
        | none => simp [pair, htoken] at hp
        | some token =>
          simp only [pair, htoken, Option.map_some, Option.toList_some, List.mem_singleton] at hp
          exact hp ▸ h.row old hold token htoken
      have hback : ∀ p, p ∈ s.issued ++ ((some r).bind pair).toList → p ∈ s.issued := fun p hp =>
        (List.mem_append.mp hp).elim (fun h => h) (fun h => hsub h)
      refine hrest ⟨List.subset_append_left _ _, fun r' hr' => .inl ⟨old, hold, fun account hother => ?_, ?_⟩⟩ fun token e e' he he' =>
        h.unique token e e' (hback _ he) (hback _ he')
      · cases hr'
        exact ⟨hgrant.1.symm.trans hother.1, hgrant.2.1.symm.trans hother.2.1, hgrant.2.2.symm.trans hother.2.2⟩
      · cases hr'
        have := congrArg (Option.map Prod.fst) hpair
        simpa [pair, Function.comp_def] using this.symm
    · refine hrest ⟨List.subset_append_left _ _, fun r hr => .inr (new_of_draws hdraws (by rw [show row = some r from hr]; rfl))⟩ ?_
      have hpair : row.bind pair = (row.bind (·.oauth_access_token)).map (·, row.bind (·.oauth_token_expiry)) := by
        cases row <;> rfl
      rw [hpair]
      exact h.unique.draws hdraws

/-- A refresh asks the provider, and its tokens are written or miss the row. -/
theorem Good.write (h : Good s) {tokens : Tokens} {access refresh : Option κ} (hstep : step s (.write i tokens access refresh) = some s') :
    Good s' := by
  simp only [step, Option.bind_eq_bind, Option.bind_eq_some_iff] at hstep
  obtain ⟨run, hi, ⟨account, known⟩, hasked, hstep⟩ := hstep
  simp only at hstep
  split at hstep
  case isFalse => cases hstep
  case isTrue hwrites =>
    simp only [Bool.and_eq_true] at hwrites
    have hrun := h.runs i run hi
    have hknown := (hrun.known account known hasked).1
    split at hstep
    next hnone =>
      cases hstep
      have hsame : RunGood { s with runs := s.runs.set i { run with missed := true } } run := hrun.moves (.refl rfl rfl)
      refine h.set hi (.refl rfl rfl) h.unique h.row ⟨hsame.known, fun _ => ⟨account, known, hasked, fun row hrow => ?_⟩, hsame.issued,
        hsame.result⟩ rfl fun _ _ h => h
      rw [hrow] at hnone
      exact ((hrun.known account known hasked).2 row hrow).resolve_left (save_none hnone)
    next row' hsome =>
      cases hstep
      obtain ⟨row, hrow, hsave⟩ := Option.bind_eq_some_iff.mp hsome
      obtain ⟨htoken, hexpiry⟩ := save_some hsave
      have hdraws : s.draws access = true := hwrites.2
      have hissued : ∀ r : Account κ, r.oauth_access_token = access → r.oauth_token_expiry = some tokens.expiry →
          Issued (s.issued ++ (access.map (·, some tokens.expiry)).toList) r := by
        rintro r rfl hr token htoken
        simp [htoken, hr]
      have hm : ∀ runs, Moves s { s with row := some row', issued := s.issued ++ (access.map (·, some tokens.expiry)).toList, runs } :=
        fun _ => ⟨List.subset_append_left _ _, fun r hr => .inr (by cases hr; exact new_of_draws hdraws htoken)⟩
      have hmoved := hrun.moves (hm (s.runs.set i { run with result := some (some { account with
        oauth_access_token := access
        oauth_refresh_token := refresh <|> account.oauth_refresh_token
        oauth_token_expiry := some tokens.expiry }) }))
      refine h.set hi (hm _) (h.unique.draws hdraws) (fun r hr => by cases hr; exact hissued _ htoken hexpiry)
        ⟨hmoved.known, hmoved.missed, fun a ha => ?_, fun a ha => ?_⟩ rfl fun _ _ h => h
      · cases ha
        exact hissued _ rfl rfl
      · cases ha
        simp only [hasked]
        exact (new_of_draws hdraws rfl).mono hknown

/-- A refresh reads the row: it answers from it or takes it to the provider. -/
theorem Good.read (h : Good s) (hstep : step s (.read i now) = some s') : Good s' := by
  simp only [step, Option.bind_eq_bind, Option.bind_eq_some_iff] at hstep
  obtain ⟨run, hi, hstep⟩ := hstep
  split at hstep
  case isFalse => cases hstep
  case isTrue hreads =>
    simp only [Bool.and_eq_true, Option.isNone_iff_eq_none] at hreads
    obtain ⟨hasked, hresult⟩ := hreads
    split at hstep
    next =>
      cases hstep
      exact h.fails hi
    next row hrow =>
      split at hstep
      case isTrue =>
        cases hstep
        exact h.fails hi
      case isFalse hgranted =>
        split at hstep
        case isTrue =>
          cases hstep
          refine h.set hi (.refl rfl rfl) h.unique h.row ⟨fun a known ha => ?_, fun hmissed => ?_, fun a ha => ?_, fun a ha => ?_⟩ rfl
            fun account haccount _ => serves_of_issued rfl haccount
          · cases ha
            exact ⟨fun _ h => h, fun r hr => .inl (by cases hrow.symm.trans hr; exact ⟨rfl, rfl, rfl⟩)⟩
          · obtain ⟨a, known, ha, -⟩ := (h.runs i run hi).missed hmissed
            rw [hasked] at ha
            cases ha
          · rw [hresult] at ha
            cases ha
          · rw [hresult] at ha
            cases ha
        case isFalse hfresh =>
          cases hstep
          refine h.settles hi (h.row row hrow) ?_
          rw [hasked]
          intro hforce
          simp only [mustRefresh, hforce, Bool.and_eq_true, Bool.or_eq_true] at hfresh
          by_contra hlater
          exact hfresh ⟨by simpa using hgranted, .inr ⟨trivial, by simpa using hlater⟩⟩

/-- What `ensureFreshOAuthAccount` starts or joins. -/
theorem Good.ensure (h : Good s) (hserves : force = true → ∀ i run, s.existing = some (i, run) → run.force = true → run.serves account = true)
    (he : ensureFreshOAuthAccount s account force now = (s', phase)) :
    Good s' ∧ s'.calls = s.calls ∧ s'.issued = s.issued ∧ Goes s s' ∧ PhaseGood s' account force phase := by
  unfold ensureFreshOAuthAccount at he
  split at he
  case isTrue hfresh =>
    cases he
    refine ⟨h, rfl, rfl, .refl rfl, fun hforce => ?_⟩
    rw [hforce] at hfresh
    cases hfresh
  case isFalse =>
    split at he
    next i run hexisting =>
      cases he
      have hi : s.runs[i]? = some run := by
        obtain ⟨k, -, hk⟩ := Option.bind_eq_some_iff.mp hexisting
        obtain ⟨r, hr, hkr⟩ := Option.map_eq_some_iff.mp hk
        cases hkr
        exact hr
      refine ⟨h, rfl, rfl, .refl rfl, ?_⟩
      split
      case isTrue hjoins =>
        refine ⟨run, hi, fun hforce => ?_⟩
        have hrun : run.force = true := by simpa [hforce] using hjoins
        exact ⟨hrun, hserves hforce i run hexisting hrun⟩
      case isFalse => exact ⟨run, hi⟩
    next =>
      cases he
      have hgoes : Goes s { s with runs := s.runs ++ [{ account, force }], inFlight := some s.runs.length } := fun k other hk =>
        ⟨other, Agents.getElem?_append_some.mpr (.inl hk), rfl, fun _ _ h => h⟩
      refine ⟨⟨h.unique, h.row, fun k other hk => ?_, fun j call hj => (h.calls j call hj).goes (fun _ h => h) hgoes⟩, rfl, rfl, hgoes,
        { account, force }, by simp, fun hforce => ⟨hforce, by simp [Run.serves, expiresLater_irrefl]⟩⟩
      rcases Agents.getElem?_append_some.mp hk with hk | ⟨-, rfl⟩
      · exact (h.runs k other hk).moves (.refl rfl rfl)
      · exact ⟨fun _ _ ha => (by cases ha), fun hm => (by cases hm), fun _ ha => (by cases ha), fun _ ha => (by cases ha)⟩

theorem Good.moves (h : Good s) {call' : Call κ} (hj : s.calls[j]? = some call) (hcall : CallGood s call') :
    Good { s with calls := s.calls.set j call' } := by
  have hgoes : Goes s { s with calls := s.calls.set j call' } := .refl rfl
  refine ⟨h.unique, h.row, fun i run hi => (h.runs i run hi).moves (.refl rfl rfl), fun k other hk => ?_⟩
  rcases (Agents.getElem?_set_some hj).mp hk with ⟨-, rfl⟩ | ⟨-, hk⟩
  · exact hcall.goes (fun _ h => h) hgoes
  · exact (h.calls k other hk).goes (fun _ h => h) hgoes

theorem Good.called (h : Good s) (hserved : served s (.call account force now) = true) (hstep : step s (.call account force now) = some s') :
    Good s' := by
  simp only [step] at hstep
  split at hstep
  case isFalse => cases hstep
  case isTrue hpair =>
    have haccount : Issued s.issued account := fun token htoken => by simpa [pair, htoken] using hpair
    rcases he : ensureFreshOAuthAccount s account force now with ⟨t, phase⟩
    rw [he] at hstep
    cases hstep
    obtain ⟨hgood, -, hissued, -, hphase⟩ := h.ensure (fun hforce i run hexisting hrun => by
      subst hforce
      simpa [served, hexisting, hrun] using hserved) he
    have hsame : Goes t { t with calls := t.calls ++ [{ account, force, phase }] } := .refl rfl
    refine ⟨hgood.unique, hgood.row, fun i run hi => (hgood.runs i run hi).moves (.refl rfl rfl), fun k other hk => ?_⟩
    rcases Agents.getElem?_append_some.mp hk with hk | ⟨-, rfl⟩
    · exact (hgood.calls k other hk).goes (fun _ h => h) hsame
    · exact CallGood.goes ⟨hissued ▸ haccount, hphase⟩ (fun _ h => h) hsame

theorem Good.resume (h : Good s) (hserved : served s (.resume j now) = true) (hstep : step s (.resume j now) = some s') : Good s' := by
  simp only [step, Option.bind_eq_bind, Option.bind_eq_some_iff] at hstep
  obtain ⟨call, hj, hstep⟩ := hstep
  have hcall := h.calls j call hj
  have hphase := hcall.phase
  split at hstep
  next i hi =>
    rw [hi] at hphase
    obtain ⟨run, hrun, hserves⟩ := hphase
    simp only [Option.bind_eq_some_iff] at hstep
    obtain ⟨result, ⟨run', hrun', hresult⟩, hstep⟩ := hstep
    cases hrun.symm.trans hrun'
    split at hstep
    case isTrue => cases hstep
    case isFalse =>
      cases hstep
      refine h.moves hj ⟨hcall.issued, fun hforce a ha token htoken => ?_⟩
      subst ha
      exact (h.runs i run hrun).serves h.unique hresult (hserves hforce).1 (hserves hforce).2 hcall.issued htoken
  next i hi =>
    rw [hi] at hphase
    obtain ⟨run, hrun⟩ := hphase
    simp only [Option.bind_eq_some_iff] at hstep
    obtain ⟨result, ⟨run', hrun', hresult⟩, hstep⟩ := hstep
    cases hrun.symm.trans hrun'
    split at hstep
    case isTrue => cases hstep
    case isFalse =>
      split at hstep
      case isTrue hlater =>
        cases hstep
        refine h.moves hj ⟨hcall.issued, fun hforce a ha token htoken => ?_⟩
        subst ha
        exact h.unique.differs ((h.runs i run hrun).issued a hresult) hcall.issued (by simpa using hlater) expiresLater_irrefl htoken
      case isFalse hearlier =>
        rcases he : ensureFreshOAuthAccount s call.account call.force now with ⟨t, phase⟩
        rw [he] at hstep
        cases hstep
        obtain ⟨hgood, hcalls, hissued, -, hphase'⟩ := h.ensure (fun hforce k other hexisting hother => by
          simpa [served, hj, hforce, hi, hrun, hresult, hearlier, hexisting, hother] using hserved) he
        exact hgood.moves (hcalls ▸ hj) ⟨hissued ▸ hcall.issued, hphase'⟩
  next => cases hstep

theorem good_invariant : (system (κ := κ)).Invariant (fun s l => served s l = true) Good where
  init {s} hinit := by
    obtain ⟨hissued, hruns, -, hcalls⟩ := hinit
    refine ⟨fun token e e' he he' => ?_, fun row hrow token htoken => ?_, fun i run hi => ?_, fun j call hj => ?_⟩
    · rw [hissued] at he he'
      cases hpair : s.row.bind pair with
      | none => simp [hpair] at he
      | some p =>
        simp only [hpair, Option.toList_some, List.mem_singleton] at he he'
        exact (Prod.mk.injEq .. ▸ he.trans he'.symm).2
    · simp [hissued, hrow, pair, htoken]
    · simp [hruns] at hi
    · simp [hcalls] at hj
  step {s l s'} h hserved hstep := by
    cases l with
    | call account force now => exact h.called hserved hstep
    | resume j now => exact h.resume hserved hstep
    | read i now => exact h.read hstep
    | write i tokens access refresh => exact h.write hstep
    | commit row => exact h.commit hstep
    | lockFails i =>
      simp only [system, step, Option.bind_eq_bind, Option.bind_eq_some_iff] at hstep
      obtain ⟨run, hi, hstep⟩ := hstep
      split at hstep <;> cases hstep
      exact h.fails hi
    | refreshFails i =>
      simp only [system, step, Option.bind_eq_bind, Option.bind_eq_some_iff] at hstep
      obtain ⟨run, hi, hstep⟩ := hstep
      split at hstep <;> cases hstep
      exact h.fails hi
    | forget i =>
      simp only [system, step, Option.bind_eq_bind, Option.bind_eq_some_iff] at hstep
      obtain ⟨run, hi, hstep⟩ := hstep
      split at hstep <;> cases hstep
      exact ⟨h.unique, h.row, fun k other hk => (h.runs k other hk).moves (.refl rfl rfl),
        fun k call hk => (h.calls k call hk).goes (fun _ h => h) (.refl rfl)⟩
    | reread i =>
      simp only [system, step, Option.bind_eq_bind, Option.bind_eq_some_iff] at hstep
      obtain ⟨run, hi, hstep⟩ := hstep
      split at hstep
      case isFalse => cases hstep
      case isTrue hmissed =>
        cases hstep
        cases hrow : s.row with
        | none => exact h.fails hi
        | some row =>
          rw [Bool.and_eq_true] at hmissed
          obtain ⟨account, known, hasked, hnew⟩ := (h.runs i run hi).missed hmissed.1
          refine h.settles hi (h.row row hrow) ?_
          simp only [hasked]
          exact hnew row hrow

/-- In a run in which every forced call that joins a forced refresh is served by it, no forced call is handed the token that it passed. -/
theorem never_hands_back (hs : (system (κ := κ)).ReachesUnder (fun s l => served s l = true) s) : NeverHandsBack s := by
  have h := good_invariant.reachesUnder hs
  intro call hmem hforce result hdone token htoken
  obtain ⟨j, hj⟩ := List.mem_iff_getElem?.mp hmem
  have hphase := (h.calls j call hj).phase
  rw [hdone] at hphase
  exact hphase hforce result rfl token htoken

private def holding (token : String) (expiry : Int) : Account String where
  oauth_provider := .google
  oauth_access_token := some token
  oauth_refresh_token := some "grant"
  oauth_token_expiry := some expiry

private def start : State String where
  row := some (holding "first" 1000000)
  issued := [("first", some 1000000)]

private theorem start_init : system.init start := ⟨rfl, rfl, rfl, rfl⟩

/-- Whether call `j` was forced, passed `token` and is handed `result`. -/
private def handed (s : State String) (j : Nat) (token result : String) : Bool :=
  (s.calls[j]?).any fun call => call.force && call.account.oauth_access_token = some token && match call.phase with
    | .done (some account) => account.oauth_access_token = some result
    | _ => false

/-- Two calls whose token was rejected share the provider's answer. -/
theorem never_hands_back_shared : ∃ s : State String, NeverHandsBack s ∧ handed s 0 "first" "third" = true ∧
    handed s 1 "first" "third" = true := by
  have htrace : ((system.exec (fun s l => served s l = true) start
      [.call (holding "first" 1000000) true 0, .read 0 0, .call (holding "first" 1000000) true 0,
        .write 0 ⟨some "third", none, 9000000, false⟩ (some "third") none, .forget 0, .resume 0 0, .resume 1 0]).any fun s =>
        handed s 0 "first" "third" && handed s 1 "first" "third") = true := by decide +kernel
  obtain ⟨s, hs, hhanded⟩ := TransitionSystem.reaches_of_exec start_init htrace
  rw [Bool.and_eq_true] at hhanded
  exact ⟨s, never_hands_back hs, hhanded⟩

/-- A call whose token was rejected joins the refresh that one with an older token started, which answers with the row: it holds the very
token that the second call passed. -/
theorem not_never_hands_back : ∃ s : State String, system.Reachable s ∧ ¬ NeverHandsBack s := by
  have htrace : ((system.exec TransitionSystem.anyStep start
      [.commit (some (holding "second" 9000000)), .call (holding "first" 1000000) true 0, .call (holding "second" 9000000) true 0,
        .read 0 0, .forget 0, .resume 1 0]).any fun s => handed s 1 "second" "second") = true := by decide +kernel
  obtain ⟨s, hs, hhanded⟩ := TransitionSystem.reaches_of_exec start_init htrace
  refine ⟨s, hs, fun hnever => ?_⟩
  obtain ⟨call, hj, hcall⟩ := (Option.any_eq_true _ _).mp hhanded
  simp only [Bool.and_eq_true, decide_eq_true_eq] at hcall
  obtain ⟨⟨hforce, htoken⟩, hresult⟩ := hcall
  split at hresult
  next account hdone =>
    exact hnever call (List.mem_of_getElem? hj) hforce account hdone "second" htoken (by simpa using hresult)
  next => cases hresult

end MailExpert.OAuth.Forced
