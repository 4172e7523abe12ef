import MailExpert.OAuth.Reconnect

/-!
# A refresh never undoes a reconnect

A refresh that read its row before the latest reconnect finds another refresh token stored, so neither of
its writes meets the row (`Fits.stale`). One that read it since may write, and what it says of the stored
token is what the provider said.
-/

namespace MailExpert.OAuth

variable {κ : Type} {decrypt : κ → Option String} {clientSecret : Option String}
  {apps : Table Nat (GoogleApp κ)} {row account account' : Account κ} {tokens : Tokens}
  {access refresh : Option κ} {first second : Option Reply} {now expiry : Int} {e : RefreshError}

/-- The provider can be asked about the row. -/
structure Usable (decrypt : κ → Option String) (apps : Table Nat (GoogleApp κ)) (row : Account κ) : Prop where
  token : (storedRefreshToken decrypt row).isSome = true
  app : row.oauth_provider = .google → (availableApp apps row.oauth_app_id).isSome = true

theorem refreshGoogleToken_error (happ : (availableApp apps row.oauth_app_id).isSome = true)
    (htoken : (storedRefreshToken decrypt row).isSome = true)
    (hcall : refreshGoogleToken decrypt apps row first now = .error e) (he : e.needsReconnect = true) :
    ∃ error, e = .provider error := by
  obtain ⟨app, happ⟩ := Option.isSome_iff_exists.mp happ
  obtain ⟨token, htoken⟩ := Option.isSome_iff_exists.mp htoken
  unfold refreshGoogleToken at hcall
  rw [happ, htoken] at hcall
  dsimp only at hcall
  split at hcall
  · split at hcall
    · split at hcall
      · cases hcall
        exact ⟨_, rfl⟩
      · split at hcall
        · cases hcall
        · cases hcall
          cases he
    · cases hcall
      cases he
  · cases hcall
    cases he

theorem doRefreshMicrosoftToken_error (htoken : (storedRefreshToken decrypt row).isSome = true)
    (hcall : doRefreshMicrosoftToken decrypt clientSecret row first second now = .error e)
    (he : e.needsReconnect = true) : ∃ error, e = .provider error := by
  obtain ⟨token, htoken⟩ := Option.isSome_iff_exists.mp htoken
  unfold doRefreshMicrosoftToken at hcall
  rw [htoken] at hcall
  dsimp only at hcall
  split at hcall
  · split at hcall
    · split at hcall
      · cases hcall
        exact ⟨_, rfl⟩
      · cases hcall
    · cases hcall
      cases he
  · cases hcall
    cases he

/-- For a usable row only the provider asks for a new consent, of the token it was given. -/
theorem Usable.rejects (h : Usable decrypt apps row)
    (hcall : callProvider decrypt clientSecret apps row first second now = .error e)
    (he : e.needsReconnect = true) :
    ∃ c, row.oauth_refresh_token = some c ∧
      c ∈ rejects row (callProvider decrypt clientSecret apps row first second now) := by
  obtain ⟨error, rfl⟩ : ∃ error, e = .provider error := by
    cases hprovider : row.oauth_provider with
    | microsoft =>
      rw [callProvider, hprovider] at hcall
      exact doRefreshMicrosoftToken_error h.token hcall he
    | google =>
      rw [callProvider, hprovider] at hcall
      exact refreshGoogleToken_error (h.app hprovider) h.token hcall he
  rw [hcall]
  cases htoken : row.oauth_refresh_token with
  | none =>
    have hsome := h.token
    rw [storedRefreshToken, htoken] at hsome
    cases hsome
  | some c =>
    refine ⟨c, rfl, ?_⟩
    rw [OAuth.rejects, if_pos he, htoken]
    exact List.mem_singleton_self c

/-- A reconnect writes over a mailbox of its provider and clears the flag. -/
structure Reconnected (apps : Table Nat (GoogleApp κ)) (stored stored' : Account κ)
    (access refresh : Option κ) : Prop where
  access : stored'.oauth_access_token = access
  refresh : stored'.oauth_refresh_token = (refresh <|> stored.oauth_refresh_token)
  provider : stored'.oauth_provider = stored.oauth_provider
  app : stored'.oauth_provider = .google → (availableApp apps stored'.oauth_app_id).isSome = true
  flag : stored'.oauth_reconnect_required = false

theorem reconnected_google {appId : Nat}
    (h : reconnectGoogle apps account appId access refresh expiry = .ok account') :
    Reconnected apps account account' access refresh := by
  unfold reconnectGoogle at h
  split at h
  · cases h
  next happ =>
  split at h
  · cases h
  dsimp only at h
  split at h
  · cases h
  · cases h
    refine ⟨rfl, rfl, rfl, fun _ => ?_, rfl⟩
    exact Option.isSome_iff_ne_none.mpr (by simpa using happ)

theorem reconnected_microsoft {publicClient : Bool}
    (h : reconnectMicrosoft account publicClient access refresh expiry = .ok account') :
    Reconnected apps account account' access refresh ∧ account'.oauth_provider = .microsoft := by
  unfold reconnectMicrosoft at h
  split at h
  · cases h
  next hprovider =>
  cases h
  refine ⟨⟨rfl, rfl, rfl, fun hgoogle => ?_, rfl⟩, not_not.mp hprovider⟩
  rw [not_not.mp hprovider] at hgoogle
  cases hgoogle

/-! ## The invariant -/

variable {s s' : State κ} {r : Refresh κ} {id : Nat} {l : Label κ} {force : Bool}

/-- A running refresh. It is stale once a reconnect came after it read its row. -/
structure Fits (decrypt : κ → Option String) (s : State κ) (r : Refresh κ) : Prop where
  since : r.since ≤ s.connects
  known : ∀ c ∈ r.row.oauth_refresh_token, c ∈ s.encrypted
  stale : r.since < s.connects → r.row.oauth_refresh_token ≠ s.account.oauth_refresh_token
  usable : r.since = s.connects → 0 < s.connects → Usable decrypt s.apps r.row
  answered {e : RefreshError} : r.answer = some (.error e) → e.needsReconnect = true →
    r.since = s.connects → 0 < s.connects →
    ∃ c, r.row.oauth_refresh_token = some c ∧ c ∈ s.rejected

/-- The latest reconnect wrote the column, or a refresh that read its row since. -/
def Writer.Latest (w : Writer) (connects : Nat) : Prop :=
  w = .connect connects ∨ ∃ id, w = .refresh id connects

/-- The stored credentials are those of the latest reconnect, or newer. Microsoft's have no app. -/
structure State.Current (s : State κ) : Prop where
  oauth_access_token : s.written.oauth_access_token.Latest s.connects
  oauth_refresh_token : s.written.oauth_refresh_token.Latest s.connects
  oauth_app_id : s.account.oauth_provider = .google → s.written.oauth_app_id.Latest s.connects
  oauth_public_client : s.written.oauth_public_client.Latest s.connects

theorem State.Current.of_eq (h : s.Current) (hwritten : s'.written = s.written)
    (hconnects : s'.connects = s.connects)
    (hprovider : s'.account.oauth_provider = s.account.oauth_provider) : s'.Current := by
  obtain ⟨haccess, hrefresh, happ, hclient⟩ := h
  constructor
  · rwa [hwritten, hconnects]
  · rwa [hwritten, hconnects]
  · rwa [hwritten, hconnects, hprovider]
  · rwa [hwritten, hconnects]

structure Inv (decrypt : κ → Option String) (s : State κ) : Prop where
  known : ∀ c ∈ s.account.oauth_refresh_token, c ∈ s.encrypted
  usable : 0 < s.connects → Usable decrypt s.apps s.account
  refreshes {id : Nat} {r : Refresh κ} : s.refreshes.lookup id = some r → Fits decrypt s r
  current : s.Current

/-- Between two reconnects the stored refresh token changes only to one drawn anew. -/
structure Extends (s s' : State κ) : Prop where
  connects : s'.connects = s.connects
  apps : s'.apps = s.apps
  encrypted : s.encrypted ⊆ s'.encrypted
  rejected : s.rejected ⊆ s'.rejected
  token : s'.account.oauth_refresh_token = s.account.oauth_refresh_token ∨
    ∃ c, s'.account.oauth_refresh_token = some c ∧ c ∉ s.encrypted

theorem Fits.mono (h : Fits decrypt s r) (hs : Extends s s') : Fits decrypt s' r := by
  refine ⟨hs.connects ▸ h.since, fun c hc => hs.encrypted (h.known c hc), fun hlt => ?_, ?_, ?_⟩
  · rcases hs.token with heq | ⟨c, hc, hnew⟩
    · rw [heq]
      exact h.stale (hs.connects ▸ hlt)
    · rw [hc]
      intro hsame
      exact hnew (h.known c hsame)
  · rw [hs.connects, hs.apps]
    exact h.usable
  · rw [hs.connects]
    intro e he hreconnect hsince hpos
    obtain ⟨c, hc, hrejected⟩ := h.answered he hreconnect hsince hpos
    exact ⟨c, hc, hs.rejected hrejected⟩

/-- Every refresh that runs is stale after a reconnect. -/
theorem Fits.reconnect {c : κ} {app : Bool} (h : Fits decrypt s r) (hnew : c ∉ s.encrypted)
    (htoken : account'.oauth_refresh_token = some c) :
    Fits decrypt (s.reconnect account' access refresh app) r := by
  have hsince : r.since ≠ s.connects + 1 := fun heq => by have := h.since; omega
  refine ⟨Nat.le_succ_of_le h.since, fun k hk => ?_, fun _ => ?_, fun heq => absurd heq hsince,
    fun _ _ heq => absurd heq hsince⟩
  · exact List.mem_append_right _ (h.known k hk)
  · show r.row.oauth_refresh_token ≠ account'.oauth_refresh_token
    rw [htoken]
    intro hsame
    exact hnew (h.known c hsame)

/-- The write of a refresh meets the row only if no reconnect came in between. -/
theorem Fits.since_eq (h : Fits decrypt s r)
    (hcompared : s.account.oauth_refresh_token = r.row.oauth_refresh_token) : r.since = s.connects := by
  rcases Nat.lt_or_eq_of_le h.since with hlt | heq
  · exact absurd hcompared.symm (h.stale hlt)
  · exact heq

theorem Usable.of_eq (h : Usable decrypt apps account)
    (htoken : (storedRefreshToken decrypt account').isSome = true)
    (hprovider : account'.oauth_provider = account.oauth_provider)
    (happ : account'.oauth_app_id = account.oauth_app_id) : Usable decrypt apps account' := by
  refine ⟨htoken, fun hgoogle => ?_⟩
  rw [happ]
  exact h.app (hprovider ▸ hgoogle)

/-- The refresh ends, and nothing it did shows but what it stored. -/
theorem Inv.ended (h : Inv decrypt s) (hs : Extends s s')
    (hrefreshes : s'.refreshes = s.refreshes.delete fun k _ => k = id)
    (hknown : ∀ c ∈ s'.account.oauth_refresh_token, c ∈ s'.encrypted)
    (husable : 0 < s.connects → Usable decrypt s.apps s'.account) (hcurrent : s'.Current) :
    Inv decrypt s' := by
  refine ⟨hknown, ?_, fun {k r} hr => ?_, hcurrent⟩
  · rw [hs.connects, hs.apps]
    exact husable
  · rw [hrefreshes, Table.lookup_delete, Option.filter_eq_some_iff] at hr
    exact (h.refreshes hr.1).mono hs

variable [DecidableEq κ]

/-- A ciphertext that is drawn is new, and decrypts. -/
theorem draws_refresh {encrypted : List κ} {c : κ}
    (h : draws decrypt encrypted access (some c) = true) :
    c ∉ encrypted ∧ (truthy (decrypt c)).isSome = true := by
  rw [draws, Bool.and_eq_true] at h
  have hc := List.all_eq_true.mp h.2 c (by simp)
  rw [Bool.and_eq_true, decide_eq_true_eq] at hc
  exact hc

/-- A refresh stores its tokens only over the refresh token and the app it read. -/
structure Saved (stored row stored' : Account κ) (access refresh : Option κ) : Prop where
  compared : stored.oauth_refresh_token = row.oauth_refresh_token
  access : stored'.oauth_access_token = access
  refresh : stored'.oauth_refresh_token = (refresh <|> stored.oauth_refresh_token)
  provider : stored'.oauth_provider = stored.oauth_provider
  app : stored'.oauth_app_id = stored.oauth_app_id
  flag : stored'.oauth_reconnect_required = stored.oauth_reconnect_required

theorem saved_of_save (h : save account row tokens access refresh = some account') :
    Saved account row account' access refresh := by
  unfold save at h
  split at h
  · rw [saveMicrosoft, Option.ite_none_right_eq_some] at h
    obtain ⟨hcompared, h⟩ := h
    cases h
    exact ⟨hcompared.1, rfl, rfl, rfl, rfl, rfl⟩
  · rw [saveGoogle, Option.ite_none_right_eq_some] at h
    obtain ⟨hcompared, h⟩ := h
    cases h
    exact ⟨hcompared.1, rfl, rfl, rfl, rfl, rfl⟩

/-! ## One step -/

theorem Inv.reconnect {app : Bool} (h : Inv decrypt s)
    (hwrite : Reconnected s.apps s.account account' access refresh)
    (hdraws : draws decrypt s.encrypted access refresh = true) (hbrings : refresh.isSome = true)
    (happ : account'.oauth_provider = .google → app = true) :
    Inv decrypt (s.reconnect account' access refresh app) := by
  obtain ⟨c, rfl⟩ := Option.isSome_iff_exists.mp hbrings
  obtain ⟨hnew, htruthy⟩ := draws_refresh hdraws
  have htoken : account'.oauth_refresh_token = some c := hwrite.refresh
  refine ⟨fun k hk => ?_, fun _ => ⟨?_, hwrite.app⟩, fun hr => (h.refreshes hr).reconnect hnew htoken, ?_⟩
  · cases htoken.symm.trans hk
    simp [State.reconnect]
  · show (storedRefreshToken decrypt account').isSome = true
    rw [storedRefreshToken, htoken]
    exact htruthy
  · refine ⟨.inl rfl, .inl rfl, fun hgoogle => .inl ?_, .inl rfl⟩
    exact if_pos (happ hgoogle)

theorem Inv.consent {written : Except String (Account κ)} {app : Bool} (h : Inv decrypt s)
    (hwritten : ∀ account', written = .ok account' →
      Reconnected s.apps s.account account' access refresh ∧ (account'.oauth_provider = .google → app = true))
    (hbrings : refresh.isSome = true) (hstep : s.consent decrypt written access refresh app = some s') :
    Inv decrypt s' := by
  unfold State.consent at hstep
  split at hstep
  · next account' =>
    rw [Option.ite_none_right_eq_some] at hstep
    obtain ⟨hdraws, hstep⟩ := hstep
    cases hstep
    obtain ⟨hreconnected, happ⟩ := hwritten account' rfl
    exact h.reconnect hreconnected hdraws hbrings happ
  · cases hstep
    exact h

theorem Inv.read (h : Inv decrypt s) (hstep : step decrypt clientSecret s (.read id account now force) = some s') :
    Inv decrypt s' := by
  unfold step at hstep
  dsimp only at hstep
  split at hstep
  · cases hstep
  split at hstep
  · cases hstep
    refine ⟨h.known, h.usable, fun {k r} hr => ?_, h.current.of_eq rfl rfl rfl⟩
    rw [Table.lookup_insert'] at hr
    split at hr
    · cases hr
      exact ⟨le_refl _, h.known, fun hlt => absurd hlt (lt_irrefl _), fun _ => h.usable, fun he => by cases he⟩
    · exact (h.refreshes hr).mono ⟨rfl, rfl, fun _ hc => hc, fun _ hc => hc, .inl rfl⟩
  · cases hstep
    exact h

theorem Inv.answer (h : Inv decrypt s)
    (hstep : step decrypt clientSecret s (.answer id first second now) = some s') : Inv decrypt s' := by
  simp only [step, Option.bind_eq_bind, Option.bind_eq_some_iff] at hstep
  obtain ⟨r, hr, hstep⟩ := hstep
  split at hstep
  · cases hstep
  cases hstep
  have hfits := h.refreshes hr
  refine ⟨h.known, h.usable, fun {k r'} hr' => ?_, h.current.of_eq rfl rfl rfl⟩
  rw [Table.lookup_modify] at hr'
  split at hr'
  · rw [hr] at hr'
    cases hr'
    refine ⟨hfits.since, hfits.known, hfits.stale, hfits.usable, fun he hreconnect hsince hpos => ?_⟩
    obtain ⟨c, hc, hrejected⟩ := (hfits.usable hsince hpos).rejects (Option.some.inj he) hreconnect
    exact ⟨c, hc, List.mem_append_left _ hrejected⟩
  · exact (h.refreshes hr').mono
      ⟨rfl, rfl, fun _ hc => hc, fun _ hc => List.mem_append_right _ hc, .inl rfl⟩

/-- The tokens go over the row that the refresh read. -/
theorem Inv.saved (h : Inv decrypt s) (hr : s.refreshes.lookup id = some r)
    (hdraws : draws decrypt s.encrypted access refresh = true)
    (hsaved : Saved s.account r.row account' access refresh) (hconnects : s'.connects = s.connects)
    (happs : s'.apps = s.apps) (haccount : s'.account = account')
    (hencrypted : s'.encrypted = access.toList ++ refresh.toList ++ s.encrypted)
    (hrejected : s'.rejected = s.rejected)
    (hrefreshes : s'.refreshes = s.refreshes.delete fun k _ => k = id)
    (hwritten : r.since = s.connects → s'.Current) : Inv decrypt s' := by
  have hsince := (h.refreshes hr).since_eq hsaved.compared
  have hsub : s.encrypted ⊆ s'.encrypted := by
    rw [hencrypted]
    exact List.subset_append_right _ _
  cases refresh with
  | none =>
    have htoken : account'.oauth_refresh_token = s.account.oauth_refresh_token := hsaved.refresh
    refine h.ended ⟨hconnects, happs, hsub, hrejected ▸ fun _ hc => hc, .inl ?_⟩ hrefreshes ?_ ?_
      (hwritten hsince)
    · rw [haccount, htoken]
    · rw [haccount, htoken]
      exact fun c hc => hsub (h.known c hc)
    · intro hpos
      rw [haccount]
      refine (h.usable hpos).of_eq ?_ hsaved.provider hsaved.app
      rw [storedRefreshToken, htoken]
      exact (h.usable hpos).token
  | some c =>
    obtain ⟨hnew, htruthy⟩ := draws_refresh hdraws
    have htoken : account'.oauth_refresh_token = some c := hsaved.refresh
    refine h.ended ⟨hconnects, happs, hsub, hrejected ▸ fun _ hc => hc, .inr ⟨c, ?_, hnew⟩⟩ hrefreshes
      ?_ ?_ (hwritten hsince)
    · rw [haccount, htoken]
    · rw [haccount, htoken, hencrypted]
      rintro _ ⟨⟩
      simp
    · intro hpos
      rw [haccount]
      refine (h.usable hpos).of_eq ?_ hsaved.provider hsaved.app
      rw [storedRefreshToken, htoken]
      exact htruthy

theorem Inv.write {answer : Except RefreshError Tokens} (h : Inv decrypt s)
    (hr : s.refreshes.lookup id = some r)
    (hstep : s.write decrypt id r answer access refresh = some s') : Inv decrypt s' := by
  unfold State.write at hstep
  cases answer with
  | error e =>
    dsimp only at hstep
    have hend {account' : Account κ} (htoken : account'.oauth_refresh_token = s.account.oauth_refresh_token)
        (hprovider : account'.oauth_provider = s.account.oauth_provider)
        (happ : account'.oauth_app_id = s.account.oauth_app_id) :
        Inv decrypt { s with
          account := account', refreshes := s.refreshes.delete fun k _ => k = id } := by
      refine h.ended ⟨rfl, rfl, fun _ hc => hc, fun _ hc => hc, .inl htoken⟩ rfl ?_ ?_
        (h.current.of_eq rfl rfl hprovider)
      · intro c hc
        exact h.known c (htoken ▸ hc)
      · intro hpos
        refine (h.usable hpos).of_eq ?_ hprovider happ
        rw [storedRefreshToken, htoken]
        exact (h.usable hpos).token
    split at hstep
    · split at hstep
      · cases hstep
        exact hend rfl rfl rfl
      · next account' hmark =>
        cases hstep
        rw [markReconnectRequired, Option.ite_none_right_eq_some] at hmark
        obtain ⟨-, hmark⟩ := hmark
        cases hmark
        exact hend rfl rfl rfl
    · cases hstep
      exact hend rfl rfl rfl
  | ok tokens =>
    dsimp only at hstep
    split at hstep
    case isFalse => cases hstep
    next hdraws =>
    split at hstep
    · cases hstep
      have hsub : s.encrypted ⊆ access.toList ++ refresh.toList ++ s.encrypted :=
        List.subset_append_right _ _
      exact h.ended ⟨rfl, rfl, hsub, fun _ hc => hc, .inl rfl⟩ rfl (fun c hc => hsub (h.known c hc))
        h.usable (h.current.of_eq rfl rfl rfl)
    · next account' hsave =>
      have hsaved := saved_of_save hsave
      cases hstep
      refine h.saved hr hdraws.1 hsaved rfl rfl rfl rfl rfl rfl fun hsince => ⟨?_, ?_, ?_, ?_⟩
      · exact .inr ⟨id, by rw [hsince]⟩
      · dsimp only
        split
        · exact .inr ⟨id, by rw [hsince]⟩
        · exact h.current.oauth_refresh_token
      · rw [hsaved.provider]
        exact h.current.oauth_app_id
      · dsimp only
        split
        · exact .inr ⟨id, by rw [hsince]⟩
        · exact h.current.oauth_public_client

theorem invariant : (system decrypt clientSecret).Invariant races (Inv decrypt) where
  init {s} hinit := by
    obtain ⟨hrefreshes, hconnects, hwritten, hknown, -⟩ := hinit
    refine ⟨hknown, fun hpos => by omega, fun hr => ?_, ?_⟩
    · rw [hrefreshes] at hr
      cases hr
    · constructor <;> rw [hwritten, hconnects]
      · exact .inl rfl
      · exact .inl rfl
      · exact fun _ => .inl rfl
      · exact .inl rfl
  step {s l s'} h hraces hstep := by
    cases l with
    | read id caller now force =>
      have hread : step decrypt clientSecret s (.read id caller now force) = some s' := hstep
      exact h.read hread
    | answer id first second now => exact h.answer hstep
    | write id access refresh =>
      simp only [system, step, Option.bind_eq_bind, Option.bind_eq_some_iff] at hstep
      obtain ⟨r, hr, answer, -, hstep⟩ := hstep
      exact h.write hr hstep
    | reconnectGoogle appId access refresh expiry =>
      refine h.consent (fun account' hwrite => ?_) hraces hstep
      exact ⟨reconnected_google hwrite, fun _ => rfl⟩
    | reconnectMicrosoft publicClient access refresh expiry =>
      refine h.consent (fun account' hwrite => ?_) hraces hstep
      obtain ⟨hreconnected, hmicrosoft⟩ := reconnected_microsoft hwrite
      refine ⟨hreconnected, fun hgoogle => ?_⟩
      rw [hmicrosoft] at hgoogle
      cases hgoogle
    | changeApps apps => cases hraces

/-! ## The flag -/

/-- A write sets the flag over the refresh token it read. -/
theorem write_flag {answer : Except RefreshError Tokens}
    (hstep : s.write decrypt id r answer access refresh = some s')
    (hset : s'.account.oauth_reconnect_required = true) :
    s.account.oauth_reconnect_required = true ∨ ∃ e, answer = .error e ∧ e.needsReconnect = true ∧
      s.account.oauth_refresh_token = r.row.oauth_refresh_token := by
  unfold State.write at hstep
  cases answer with
  | ok tokens =>
    dsimp only at hstep
    split at hstep
    case isFalse => cases hstep
    split at hstep
    · cases hstep
      exact .inl hset
    · next account' hsave =>
      cases hstep
      exact .inl ((saved_of_save hsave).flag.symm.trans hset)
  | error e =>
    dsimp only at hstep
    split at hstep
    · next hreconnect =>
      split at hstep
      · cases hstep
        exact .inl hset
      · next account' hmark =>
        rw [markReconnectRequired, Option.ite_none_right_eq_some] at hmark
        exact .inr ⟨e, rfl, hreconnect, hmark.1⟩
    · cases hstep
      exact .inl hset

/-- A reconnect clears the flag, or writes nothing. -/
theorem consent_flag {written : Except String (Account κ)} {app : Bool}
    (hwritten : ∀ account', written = .ok account' → account'.oauth_reconnect_required = false)
    (hstep : s.consent decrypt written access refresh app = some s')
    (hset : s'.account.oauth_reconnect_required = true) : s.account.oauth_reconnect_required = true := by
  unfold State.consent at hstep
  split at hstep
  · next account' =>
    rw [Option.ite_none_right_eq_some] at hstep
    obtain ⟨-, hstep⟩ := hstep
    cases hstep
    have hclear := hwritten account' rfl
    rw [State.reconnect, hclear] at hset
    cases hset
  · cases hstep
    exact hset

/-- Only a refresh that was refused sets the flag, over the refresh token it read. -/
theorem step_flag (hstep : step decrypt clientSecret s l = some s')
    (hset : s'.account.oauth_reconnect_required = true) :
    s.account.oauth_reconnect_required = true ∨ ∃ id r e, s.refreshes.lookup id = some r ∧
      r.answer = some (.error e) ∧ e.needsReconnect = true ∧
      s.account.oauth_refresh_token = r.row.oauth_refresh_token := by
  cases l with
  | read id caller now force =>
    simp only [step] at hstep
    split at hstep
    · cases hstep
    split at hstep
    · cases hstep
      exact .inl hset
    · cases hstep
      exact .inl hset
  | answer id first second now =>
    simp only [step, Option.bind_eq_bind, Option.bind_eq_some_iff] at hstep
    obtain ⟨r, -, hstep⟩ := hstep
    split at hstep
    · cases hstep
    · cases hstep
      exact .inl hset
  | write id access refresh =>
    simp only [step, Option.bind_eq_bind, Option.bind_eq_some_iff] at hstep
    obtain ⟨r, hr, answer, hanswer, hstep⟩ := hstep
    rcases write_flag hstep hset with hflag | ⟨e, rfl, hreconnect, hcompared⟩
    · exact .inl hflag
    · exact .inr ⟨id, r, e, hr, hanswer, hreconnect, hcompared⟩
  | reconnectGoogle appId access refresh expiry =>
    exact .inl (consent_flag (fun _ h => (reconnected_google h).flag) hstep hset)
  | reconnectMicrosoft publicClient access refresh expiry =>
    refine .inl (consent_flag (fun _ h => ?_) hstep hset)
    exact (@reconnected_microsoft _ s.apps _ _ _ _ _ _ h).1.flag
  | changeApps apps =>
    cases hstep
    exact .inl hset

/-- A Microsoft mailbox whose ciphertexts are numbers. -/
def mailbox : State Nat where
  account := { oauth_provider := .microsoft, oauth_access_token := some 0, oauth_refresh_token := some 1 }
  apps := ∅
  refreshes := ∅
  encrypted := [0, 1]
  connects := 0
  written := ⟨.connect 0, .connect 0, .connect 0, .connect 0⟩
  rejected := []

/-- Two refreshes lose against a reconnect, one with new tokens and one refused; a third that reads the
new row is refused. -/
def refused : List (Label Nat) :=
  let failed : Reply := { ok := false, body := { error := some "invalid_grant" } }
  [.read 0 mailbox.account 0 false, .read 1 mailbox.account 0 false,
    .reconnectMicrosoft true (some 2) (some 3) 0,
    .answer 0 (some { ok := true, body := { access_token := some "t", refresh_token := some "t" } }) none 0,
    .write 0 (some 4) (some 5), .answer 1 (some failed) none 0, .write 1 none none,
    .read 2 mailbox.account 0 false, .answer 2 (some failed) none 0]

end MailExpert.OAuth
