import MailExpert.SignIn.Reset

/-!
# The second factor

What a request holds of its sign-in was checked on the way (`Phase.Good`), and a code is a ticket that is spent once
(`Ledger`): by the row of the mailed code, or by the replay key, which outlives the period of the code it was set for.
-/

namespace MailExpert.SignIn

variable {lib : Library} {w w' : World} {s s' : State} {p p' q : Phase} {pick : Pick} {u : UserId} {id : Nat}
  {sid : Sid} {session : Session} {t : Ticket} {factor : Factor} {chain : Option Chain} {x : Use} {o : Opened} {n i j : Nat}

/-- The password of the user matched. -/
structure Chain.Holds (lib : Library) (u : UserId) (c : Chain) : Prop where
  user : c.user = u
  compare : lib.compare c.password c.hash = true

def Factor.Holds (lib : Library) (u : UserId) : Factor → Prop
  | .none => True
  | .device d cookie time => d.trusts lib u cookie time = true
  | .totp x => x.user = u ∧ verifyTotp lib x.code x.secret x.time = true ∧ x.stored = some x.secret
  | .mail _ token recovery time => token.user_id = u ∧ token.used = false ∧ time < token.expires_at ∧
      token.sent_to.isSome = true ∧ token.sent_to = recovery

/-- A password of the user matched in the sign-in. -/
def Rests (lib : Library) (u : UserId) (chain : Option Chain) : Prop := ∃ c, chain = some c ∧ c.Holds lib u

/-- What a session that is signed in came with. -/
structure Opened.Sound (lib : Library) (o : Opened) : Prop where
  enabled : o.row.disabled = false
  chain : ∃ c, o.chain = some c ∧ c.Holds lib o.user ∧ (c.needed = true → o.factor ≠ .none)
  factor : o.factor.Holds lib o.user

theorem Rests.sound {row : User} (h : Rests lib u chain) (henabled : row.disabled = false) (hfactor : factor.Holds lib u)
    (hsome : factor ≠ .none) : Opened.Sound lib { user := u, row, chain, factor } := by
  obtain ⟨c, hc, hholds⟩ := h
  exact ⟨henabled, ⟨c, hc, hholds, fun _ => hsome⟩, hfactor⟩

def Session.Good (lib : Library) (session : Session) : Prop := ∀ u, session.pendingUserId = some u → Rests lib u session.chain

/-- What a request holds. -/
def Phase.Good (lib : Library) (now : Nat) : Phase → Prop
  | .leave _ _ user c | .findDevice _ user c | .policy user c =>
    user.disabled = false ∧ c.Holds lib c.user ∧ c.needed = user.totp_enabled
  | .otpDelete _ _ after | .otpInsert _ _ after | .otpMail after => ∀ session, after = some session → session.Good lib ∧ session.userId = none
  | .pend session => session.Good lib ∧ session.userId = none
  | .elevate _ o _ | .trustSetting o | .trustInsert o _ | .signIn o => o.Sound lib
  | .challenge _ copy _ _ | .verify _ copy _ _ | .enable _ copy _ => copy.Good lib
  | .challengeUser _ u chain _ _ | .consume _ u chain _ _ | .enableVerify _ u chain _ _ => Rests lib u chain
  | .replay _ user chain x _ => user.disabled = false ∧ Rests lib x.user chain ∧ (Factor.totp x).Holds lib x.user ∧ x.time ≤ now
  | .consumed _ u chain factor _ => Rests lib u chain ∧ factor.Holds lib u ∧ factor ≠ .none
  | .enroll _ chain x => Rests lib x.user chain ∧ verifyTotp lib x.code x.secret x.time = true
  | _ => True

theorem Phase.Good.later {now now' : Nat} (h : p.Good lib now) (hle : now ≤ now') : p.Good lib now' := by
  cases p with
  | replay sid user chain x remember => exact ⟨h.1, h.2.1, h.2.2.1, h.2.2.2.trans hle⟩
  | _ => exact h

/-- The stored sessions, and the log of those signed in. -/
structure World.Good (lib : Library) (w : World) : Prop where
  sessions : ∀ sid session, w.sessions.lookup sid = some session → session.Good lib
  signedIn : ∀ sid session u, w.sessions.lookup sid = some session → session.userId = some u →
    ∃ o ∈ w.opened, o.user = u ∧ o.chain = session.chain
  opened : ∀ o ∈ w.opened, o.Sound lib

theorem World.Good.congr (h : w.Good lib) (hsessions : w'.sessions = w.sessions) (hopened : w'.opened = w.opened) : w'.Good lib where
  sessions := hsessions ▸ h.sessions
  signedIn := hsessions ▸ hopened ▸ h.signedIn
  opened := hopened ▸ h.opened

theorem World.Good.erase (h : w.Good lib) : ({ w with sessions := w.sessions.erase sid } : World).Good lib where
  sessions k session hs := by
    rw [Table.lookup_erase'] at hs
    split at hs
    · cases hs
    · exact h.sessions k session hs
  signedIn k session u hs := by
    rw [Table.lookup_erase'] at hs
    split at hs
    · cases hs
    · exact h.signedIn k session u hs
  opened := h.opened

theorem World.Good.modify {f : Session → Session} (h : w.Good lib)
    (hpending : ∀ session u, (f session).pendingUserId = some u → session.pendingUserId = some u)
    (huser : ∀ session, (f session).userId = session.userId) (hchain : ∀ session, (f session).chain = session.chain) :
    ({ w with sessions := w.sessions.modify sid f } : World).Good lib where
  sessions k session' hs u hu := by
    rw [Table.lookup_modify] at hs
    split at hs
    next heq =>
      obtain ⟨session, hsid, rfl⟩ := Option.map_eq_some_iff.mp hs
      rw [hchain]
      exact h.sessions sid session hsid u (hpending session u hu)
    next => exact h.sessions k session' hs u hu
  signedIn k session' u hs hu := by
    rw [Table.lookup_modify] at hs
    split at hs
    next heq =>
      obtain ⟨session, hsid, rfl⟩ := Option.map_eq_some_iff.mp hs
      rw [hchain]
      exact h.signedIn sid session u hsid (huser session ▸ hu)
    next => exact h.signedIn k session' u hs hu
  opened := h.opened

theorem World.Good.pend (h : w.Good lib) (hgood : session.Good lib) (hnone : session.userId = none) : (w.addSession session).Good lib where
  sessions k session' hs := by
    rcases lookup_addSession hs with rfl | hs
    · exact hgood
    · exact h.sessions k session' hs
  signedIn k session' u hs hu := by
    rcases lookup_addSession hs with rfl | hs
    · rw [hnone] at hu
      cases hu
    · exact h.signedIn k session' u hs hu
  opened := h.opened

theorem World.Good.signIn (h : w.Good lib) (hsound : o.Sound lib) :
    ({ w.addSession { userId := o.user, chain := o.chain } with opened := o :: w.opened } : World).Good lib where
  sessions k session' hs := by
    rcases lookup_addSession hs with rfl | hs
    · exact fun u hu => by cases hu
    · exact h.sessions k session' hs
  signedIn k session' u hs hu := by
    rcases lookup_addSession hs with rfl | hs
    · exact ⟨o, List.mem_cons_self, Option.some.inj hu, rfl⟩
    · obtain ⟨o', hmem, ho'⟩ := h.signedIn k session' u hs hu
      exact ⟨o', List.mem_cons_of_mem _ hmem, ho'⟩
  opened o' hmem := by
    rcases List.mem_cons.mp hmem with rfl | hmem
    · exact hsound
    · exact h.opened o' hmem

theorem World.Good.read {q : Phase} (hw : w.Good lib) (h : some (w, q) = some (w', p')) (hq : q.Good lib w.now) :
    p'.Good lib w'.now ∧ w'.Good lib := by
  cases h
  exact ⟨hq, hw⟩

theorem run_good (h : w.run lib p pick = some (w', p')) (hp : p.Good lib w.now) (hw : w.Good lib) :
    p'.Good lib w'.now ∧ w'.Good lib := by
  unfold World.run at h
  split at h
  · cases h
  · exact hw.read h trivial
  · refine hw.read h ?_
    split <;> trivial
  · split at h
    · exact hw.read h trivial
    · cases h
  · split at h
    · cases h
    split at h
    · cases h
    split at h
    · exact hw.read h trivial
    next hash _ =>
    split at h
    · exact hw.read h trivial
    next hcompare =>
    split at h
    · exact hw.read h trivial
    next henabled =>
    exact hw.read h ⟨by simpa using henabled, ⟨rfl, by simpa using hcompare⟩, rfl⟩
  · cases h
    exact ⟨hp, hw.erase⟩
  · split at h
    · cases h
    · exact hw.read h hp
  · split at h
    next d cookie _ _ =>
      split at h
      next htrusts => exact hw.read h ⟨hp.1, ⟨_, rfl, hp.2.1, fun _ h => by cases h⟩, htrusts⟩
      next => cases h
    next => cases h
  · -- without 2FA and without enforcement no second factor is needed
    split at h
    · exact hw.read h ⟨fun u hu => ⟨_, rfl, Option.some.inj hu ▸ hp.2.1⟩, rfl⟩
    next htotp =>
    split at h
    · dsimp only at h
      split at h
      · refine hw.read h fun session hsession => ?_
        cases hsession
        exact ⟨fun u hu => ⟨_, rfl, Option.some.inj hu, hp.2.1.compare⟩, rfl⟩
      · exact hw.read h ⟨fun u hu => ⟨_, rfl, Option.some.inj hu, hp.2.1.compare⟩, rfl⟩
    · refine hw.read h ⟨hp.1, ⟨_, rfl, hp.2.1, fun hneeded => ?_⟩, trivial⟩
      exact absurd (hp.2.2 ▸ hneeded) htotp
  · cases h
    exact ⟨hp, hw.congr rfl rfl⟩
  · cases h
    exact ⟨hp, hw.congr rfl rfl⟩
  · refine hw.read h ?_
    split
    next pending => exact hp pending rfl
    next => trivial
  · refine hw.read h ?_
    split
    next pending => exact ⟨(hp pending rfl).1, (hp pending rfl).2⟩
    next => trivial
  · cases h
    exact ⟨trivial, hw.modify (fun _ _ h => by cases h) (fun _ => rfl) fun _ => rfl⟩
  · cases h
    exact ⟨trivial, hw.modify (fun _ _ h => by cases h) (fun _ => rfl) fun _ => rfl⟩
  · cases h
    exact ⟨trivial, hw.pend hp.1 hp.2⟩
  · cases h
    refine ⟨?_, hw.erase⟩
    split <;> exact hp
  · refine hw.read h ?_
    split <;> exact hp
  · cases h
    exact ⟨hp, hw.congr rfl rfl⟩
  · cases h
    exact ⟨trivial, hw.signIn hp⟩
  · refine hw.read h ?_
    split
    · trivial
    next hpending =>
    split
    · trivial
    · exact hp _ hpending
  · refine hw.read h ?_
    split
    · trivial
    split
    · trivial
    split
    · trivial
    next henabled =>
    split
    next hverified => exact ⟨by simpa using henabled, hp, ⟨rfl, hverified, rfl⟩, le_rfl⟩
    next => trivial
  · split at h
    · exact hw.read h trivial
    · cases h
      exact ⟨hp.2.1.sound hp.1 hp.2.2.1 fun h => (by cases h), hw.congr rfl rfl⟩
  · refine hw.read h ?_
    split
    · trivial
    split <;> trivial
  · refine hw.read h ?_
    split
    · trivial
    · exact fun session h => by cases h
  · refine hw.read h ?_
    split
    · trivial
    next hpending =>
    split
    · trivial
    split
    · trivial
    · exact hp _ hpending
  · dsimp only at h
    split at h
    · exact hw.read h trivial
    · cases h
  · dsimp only at h
    split at h
    · cases h
    split at h
    next hcounts =>
      cases h
      simp only [OtpToken.counts, Bool.and_eq_true, decide_eq_true_eq, Bool.not_eq_true'] at hcounts
      obtain ⟨⟨⟨⟨⟨huser, -⟩, hused⟩, hlive⟩, hsome⟩, hsent⟩ := hcounts
      exact ⟨⟨hp, ⟨huser, hused, hlive, hsome, hsent⟩, fun h => (by cases h)⟩, hw.congr rfl rfl⟩
    next => cases h
  · refine hw.read h ?_
    split
    · trivial
    split
    · trivial
    next henabled => exact hp.1.sound (by simpa using henabled) hp.2.1 hp.2.2
  · refine hw.read h ?_
    split
    · trivial
    split <;> trivial
  · cases h
    exact ⟨trivial, hw.modify (fun _ _ h => h) (fun _ => rfl) fun _ => rfl⟩
  · refine hw.read h ?_
    split
    next hpending _ =>
      split
      · trivial
      · exact hp _ hpending
    next => trivial
  · split at h
    next hverified =>
      cases h
      exact ⟨⟨hp, hverified⟩, hw.congr rfl rfl⟩
    next => exact hw.read h trivial
  · cases h
    exact ⟨⟨hp.1, ⟨rfl, hp.2, rfl⟩, fun h => (by cases h)⟩, hw.congr rfl rfl⟩
  · dsimp only at h
    split at h
    · exact hw.read h trivial
    · cases h
      exact ⟨trivial, hw.congr rfl rfl⟩
  · split at h
    · exact hw.read h trivial
    · cases h
      exact ⟨trivial, hw.congr rfl rfl⟩
  · split at h
    · cases h
    · exact hw.read h trivial
  · split at h
    · cases h
    · exact hw.read h trivial
  · refine hw.read h ?_
    split <;> trivial
  · refine hw.read h ?_
    split <;> trivial
  · cases h
    exact ⟨trivial, hw.erase⟩
  · cases h
    exact ⟨trivial, hw.congr rfl rfl⟩
  · cases h

/-! ## Codes are spent once -/

/-- The ticket that a request holds: it was spent for the session to come. -/
def Phase.ticket : Phase → Option Ticket
  | .elevate _ o _ | .trustSetting o | .trustInsert o _ | .signIn o => o.factor.ticket
  | .consumed _ _ _ factor _ => factor.ticket
  | .enroll _ _ x => some x.ticket
  | _ => none

/-- What says which codes are spent is left alone. -/
structure Kept (w w' : World) : Prop where
  otps : w'.otps = w.otps
  nextOtp : w'.nextOtp = w.nextOtp
  replay : w'.replay = w.replay
  spent : w'.spent = w.spent
  enrolled : w'.enrolled = w.enrolled
  replaced : w'.replaced = w.replaced
  opened : w'.opened = w.opened
  now : w'.now = w.now

/-- What a step does to the codes. -/
inductive Ledger (w : World) : Phase → World → Phase → Prop
  | keep {p : Phase} {w' : World} {p' : Phase} (hkept : Kept w w') (hticket : p'.ticket = none ∨ p'.ticket = p.ticket) :
    Ledger w p w' p'
  | signIn {o : Opened} :
    Ledger w (.signIn o) { w.addSession { userId := o.user, chain := o.chain } with opened := o :: w.opened } .done
  | drop {uid : UserId} {toEmail : Option String} {after : Option Session} :
    Ledger w (.otpDelete uid toEmail after)
      { w with otps := w.otps.delete fun _ t => t.user_id = uid && !t.used } (.otpInsert uid toEmail after)
  | mail {uid : UserId} {toEmail : Option String} {after : Option Session} {token : OtpToken} :
    Ledger w (.otpInsert uid toEmail after)
      { w with otps := w.otps.insert w.nextOtp token, nextOtp := w.nextOtp + 1 } (.otpMail after)
  | consume {sid : Sid} {uid : UserId} {chain : Option Chain} {code : String} {remember : Bool} {id : Nat} {token : OtpToken}
      {recovery : Option String} (htoken : w.otps.lookup id = some token) (hused : token.used = false) :
    Ledger w (.consume sid uid chain code remember)
      { w with otps := w.otps.modify id fun t => { t with used := true }, spent := .mail id :: w.spent }
      (.consumed sid uid chain (.mail id token recovery w.now) remember)
  | replay {sid : Sid} {user : User} {chain : Option Chain} {x : Use} {remember : Bool}
      (hfree : (w.replay.lookup (x.user, x.code)).any (w.now < ·) = false) :
    Ledger w (.replay sid user chain x remember)
      { w with replay := w.replay.insert (x.user, x.code) (w.now + 90 * 1000), spent := x.ticket :: w.spent }
      (.elevate sid { user := x.user, row := user, chain, factor := .totp x } remember)
  | verify {sid : Sid} {uid : UserId} {chain : Option Chain} {secret code : String} {x : Use}
      (hx : x = { user := uid, secret, code := normalizedCode code, time := w.now, stored := none }) :
    Ledger w (.enableVerify sid uid chain secret code)
      { w with spent := x.ticket :: w.spent, enrolled := x.ticket :: w.enrolled } (.enroll sid chain x)
  | enroll {sid : Sid} {chain : Option Chain} {x : Use} {users : Table UserId User} :
    Ledger w (.enroll sid chain x) { w with users, replaced := (w.users.lookup x.user).toList ++ w.replaced }
      (.consumed sid x.user chain (.totp { x with stored := some x.secret }) false)

theorem run_ledger (h : w.run lib p pick = some (w', p')) : Ledger w p w' p' := by
  unfold World.run at h
  split at h
  case h_10 => cases h; exact .drop
  case h_11 => cases h; exact .mail
  case h_20 => cases h; exact .signIn
  case h_23 =>
    split at h
    · cases h
      exact .keep ⟨rfl, rfl, rfl, rfl, rfl, rfl, rfl, rfl⟩ (.inl rfl)
    next hfree =>
      cases h
      exact .replay (by simpa using hfree)
  case h_28 =>
    dsimp only at h
    split at h
    · cases h
    next token htoken =>
    split at h
    next hcounts =>
      cases h
      simp only [OtpToken.counts, Bool.and_eq_true, Bool.not_eq_true'] at hcounts
      exact .consume htoken hcounts.1.1.1.2
    next => cases h
  case h_33 =>
    split at h
    · cases h
      exact .verify rfl
    · cases h
      exact .keep ⟨rfl, rfl, rfl, rfl, rfl, rfl, rfl, rfl⟩ (.inl rfl)
  case h_34 => cases h; exact .enroll
  all_goals
    try dsimp only at h
    repeat' split at h
    all_goals
      cases h <;> exact .keep ⟨rfl, rfl, rfl, rfl, rfl, rfl, rfl, rfl⟩ (by first | exact .inl rfl | exact .inr rfl)

/-- What the tables say of the spent tickets. A replay key outlives the period of its code. -/
structure Tickets (w : World) : Prop where
  mail : ∀ id, .mail id ∈ w.spent → id < w.nextOtp ∧ ∀ token, w.otps.lookup id = some token → token.used = true
  otps : ∀ id token, w.otps.lookup id = some token → id < w.nextOtp
  totp : ∀ u code period, .totp u code period ∈ w.spent → .totp u code period ∈ w.enrolled ∨
    ∃ until', w.replay.lookup (u, code) = some until' ∧ period * 30000 + 90000 ≤ until'
  replaced : ∀ row ∈ w.replaced, row.totp_enabled = false

/-- The guard of an enrolment, and of a replay key: an enrolment stores its secret for a user without 2FA, it accepts no code
that was accepted in this period, and a code that `/2fa/challenge` takes is not one that an enrolment accepted, nor one that was
checked more than 60 s ago. -/
def Phase.careful (w : World) : Phase → Bool
  | .replay _ _ _ x _ => !w.enrolled.contains x.ticket && w.now ≤ x.time + 60000
  | .enableVerify _ uid _ _ code => !w.spent.contains (.totp uid (normalizedCode code) (w.now / 30000))
  | .enroll _ _ x => (w.users.lookup x.user).all fun user => !user.totp_enabled
  | _ => true

theorem Tickets.congr (h : Tickets w) (hotps : w'.otps = w.otps) (hnext : w'.nextOtp = w.nextOtp) (hreplay : w'.replay = w.replay)
    (hspent : w'.spent = w.spent) (henrolled : w'.enrolled = w.enrolled) (hreplaced : w'.replaced = w.replaced) : Tickets w' where
  mail := by
    rw [hspent, hnext, hotps]
    exact h.mail
  otps := by
    rw [hotps, hnext]
    exact h.otps
  totp := by
    rw [hspent, henrolled, hreplay]
    exact h.totp
  replaced := by
    rw [hreplaced]
    exact h.replaced

/-- A code that is not live at its replay key, and that no enrolment accepted, is not spent. -/
theorem Tickets.fresh (h : Tickets w) (hfree : (w.replay.lookup (x.user, x.code)).any (w.now < ·) = false)
    (henrolled : x.ticket ∉ w.enrolled) (htime : w.now ≤ x.time + 60000) : x.ticket ∉ w.spent := by
  intro hmem
  rcases h.totp _ _ _ hmem with hin | ⟨until', hlookup, hle⟩
  · exact henrolled hin
  · rw [hlookup, Option.any_some, decide_eq_false_iff_not, Nat.not_lt] at hfree
    have hperiod : x.time < x.period * 30000 + 30000 := by
      have := Nat.lt_div_mul_add (a := x.time) (b := 30000) (by decide)
      exact this
    omega

theorem Ledger.tickets (h : Ledger w p w' p') (ht : Tickets w) (hc : p.careful w = true) (hgood : p.Good lib w.now) : Tickets w' := by
  cases h with
  | keep hkept => exact ht.congr hkept.otps hkept.nextOtp hkept.replay hkept.spent hkept.enrolled hkept.replaced
  | signIn => exact ht.congr rfl rfl rfl rfl rfl rfl
  | drop =>
    refine ⟨fun id hmem => ⟨(ht.mail id hmem).1, fun token htoken => ?_⟩, fun id token htoken => ?_, ht.totp, ht.replaced⟩
    · rw [Table.lookup_delete] at htoken
      exact (ht.mail id hmem).2 token (Option.filter_eq_some_iff.mp htoken).1
    · rw [Table.lookup_delete] at htoken
      exact ht.otps id token (Option.filter_eq_some_iff.mp htoken).1
  | mail =>
    refine ⟨fun id hmem => ?_, fun id token htoken => ?_, ht.totp, ht.replaced⟩
    · obtain ⟨hlt, hused⟩ := ht.mail id hmem
      refine ⟨Nat.lt_succ_of_lt hlt, fun token htoken => hused token ?_⟩
      rwa [Table.lookup_insert', if_neg (Nat.ne_of_lt hlt)] at htoken
    · rw [Table.lookup_insert'] at htoken
      split at htoken
      next heq => exact heq ▸ Nat.lt_succ_self _
      next => exact Nat.lt_succ_of_lt (ht.otps id token htoken)
  | @consume _ _ _ _ _ id token _ htoken hused =>
    refine ⟨fun k hmem => ?_, fun k token' htoken' => ?_, fun u code period hmem => ?_, ht.replaced⟩
    · rcases List.mem_cons.mp hmem with heq | hmem
      · cases heq
        refine ⟨ht.otps id token htoken, fun token' htoken' => ?_⟩
        rw [Table.lookup_modify_self, htoken] at htoken'
        cases htoken'
        rfl
      · refine ⟨(ht.mail k hmem).1, fun token' htoken' => ?_⟩
        rw [Table.lookup_modify] at htoken'
        split at htoken'
        · rw [htoken] at htoken'
          cases htoken'
          rfl
        · exact (ht.mail k hmem).2 token' htoken'
    · rw [Table.lookup_modify] at htoken'
      split at htoken'
      next heq => exact heq ▸ ht.otps id token htoken
      next => exact ht.otps k token' htoken'
    · exact ht.totp u code period ((List.mem_cons.mp hmem).resolve_left fun h => by cases h)
  | @replay _ _ _ x _ hfree =>
    refine ⟨fun id hmem => ht.mail id ((List.mem_cons.mp hmem).resolve_left fun h => by cases h), ht.otps,
      fun u code period hmem => ?_, ht.replaced⟩
    have htime : x.time ≤ w.now := hgood.2.2.2
    rcases List.mem_cons.mp hmem with heq | hmem
    · obtain ⟨rfl, rfl, rfl⟩ := Ticket.totp.inj heq
      refine .inr ⟨_, by rw [Table.lookup_insert', if_pos rfl], ?_⟩
      have hperiod : x.period * 30000 ≤ x.time := Nat.div_mul_le_self x.time 30000
      calc x.period * 30000 + 90000 ≤ x.time + 90000 := Nat.add_le_add_right hperiod _
        _ ≤ w.now + 90 * 1000 := Nat.add_le_add_right htime _
    · refine (ht.totp u code period hmem).imp_right fun ⟨until', hlookup, hle⟩ => ?_
      rw [Table.lookup_insert']
      split
      next heq =>
        -- the key was free, so the one it is replaced by is live for longer
        refine ⟨_, rfl, ?_⟩
        rw [← heq, hlookup, Option.any_some, decide_eq_false_iff_not, Nat.not_lt] at hfree
        omega
      next => exact ⟨until', hlookup, hle⟩
  | verify hx =>
    refine ⟨fun id hmem => ht.mail id ((List.mem_cons.mp hmem).resolve_left fun h => by cases h), ht.otps,
      fun u code period hmem => ?_, ht.replaced⟩
    rcases List.mem_cons.mp hmem with heq | hmem
    · exact .inl (heq ▸ List.mem_cons_self)
    · exact (ht.totp u code period hmem).imp_left (List.mem_cons_of_mem _)
  | enroll =>
    refine ⟨ht.mail, ht.otps, ht.totp, fun row hmem => ?_⟩
    rcases List.mem_append.mp hmem with hmem | hmem
    · simp only [Phase.careful, Option.mem_toList.mp hmem, Option.all_some, Bool.not_eq_true'] at hc
      exact hc
    · exact ht.replaced row hmem

/-- What a step makes of the tickets that are held and of those that sessions were opened with. -/
inductive Shift (w : World) (p : Phase) (w' : World) (p' : Phase) : Prop
  | keep (hspent : w'.spent = w.spent) (hopened : w'.opened = w.opened) (hticket : p'.ticket = none ∨ p'.ticket = p.ticket)
  | signIn (o : Opened) (hspent : w'.spent = w.spent) (hopened : w'.opened = o :: w.opened) (hp : p.ticket = o.factor.ticket)
    (hticket : p'.ticket = none)
  | spend (t : Ticket) (hfresh : t ∉ w.spent) (hspent : w'.spent = t :: w.spent) (hopened : w'.opened = w.opened)
    (hticket : p'.ticket = some t)

theorem Ledger.shift (h : Ledger w p w' p') (ht : Tickets w) (hc : p.careful w = true) : Shift w p w' p' := by
  cases h with
  | keep hkept hticket => exact .keep hkept.spent hkept.opened hticket
  | @signIn o => exact .signIn o rfl rfl rfl rfl
  | drop | mail => exact .keep rfl rfl (.inl rfl)
  | @consume _ _ _ _ _ id token _ htoken hused =>
    refine .spend (.mail id) (fun hmem => ?_) rfl rfl rfl
    rw [(ht.mail id hmem).2 token htoken] at hused
    cases hused
  | @replay _ _ _ x _ hfree =>
    simp only [Phase.careful, Bool.and_eq_true, Bool.not_eq_true', decide_eq_true_eq, List.contains_eq_mem,
      decide_eq_false_iff_not] at hc
    exact .spend x.ticket (ht.fresh hfree hc.1 hc.2) rfl rfl rfl
  | @verify _ _ _ _ _ x hx =>
    simp only [Phase.careful, Bool.not_eq_true', List.contains_eq_mem, decide_eq_false_iff_not] at hc
    refine .spend x.ticket ?_ rfl rfl rfl
    rw [hx]
    exact hc
  | enroll => exact .keep rfl rfl (.inr rfl)

def World.tickets (w : World) : List Ticket := w.opened.filterMap fun o => o.factor.ticket

structure Held (s : State) : Prop where
  spent : ∀ p ∈ s.requests, ∀ t, p.ticket = some t → t ∈ s.world.spent ∧ t ∉ s.world.tickets
  once : ∀ (i j : Nat) (p q : Phase) t, s.requests[i]? = some p → s.requests[j]? = some q → p.ticket = some t → q.ticket = some t → i = j
  nodup : s.world.tickets.Nodup
  opened : ∀ t ∈ s.world.tickets, t ∈ s.world.spent

theorem tickets_cons (h : w'.opened = o :: w.opened) : w'.tickets = o.factor.ticket.toList ++ w.tickets := by
  rw [World.tickets, h, List.filterMap_cons]
  cases o.factor.ticket <;> rfl

theorem tickets_congr (h : w'.opened = w.opened) : w'.tickets = w.tickets := by
  rw [World.tickets, h, World.tickets]

/-- The tickets of the requests after request `i` moved. -/
theorem once_set (h : Held s) (hp : s.requests[i]? = some p)
    (hself : ∀ (j : Nat) (q : Phase) t, i ≠ j → s.requests[j]? = some q → p'.ticket = some t → q.ticket ≠ some t) :
    ∀ (j k : Nat) (q r : Phase) t, (s.requests.set i p')[j]? = some q → (s.requests.set i p')[k]? = some r → q.ticket = some t →
      r.ticket = some t → j = k := by
  intro j k q r t hq hr hqt hrt
  rcases (Agents.getElem?_set_some hp).mp hq with ⟨rfl, rfl⟩ | ⟨hij, hj⟩
  · rcases (Agents.getElem?_set_some hp).mp hr with ⟨rfl, -⟩ | ⟨hik, hr⟩
    · rfl
    · exact absurd hrt (hself k r t hik hr hqt)
  · rcases (Agents.getElem?_set_some hp).mp hr with ⟨rfl, rfl⟩ | ⟨hik, hr⟩
    · exact absurd hqt (hself j q t hij hj hrt)
    · exact h.once j k q r t hj hr hqt hrt

theorem Held.run (h : Held s) (hp : s.requests[i]? = some p) (hshift : Shift s.world p w' p') :
    Held { world := w', requests := s.requests.set i p' } := by
  have hmem := List.mem_of_getElem? hp
  cases hshift with
  | keep hspent hopened hticket =>
    have htickets := tickets_congr hopened
    have hself (t : Ticket) (ht : p'.ticket = some t) : p.ticket = some t := by
      rcases hticket with hnone | hsame
      · rw [hnone] at ht
        cases ht
      · exact hsame ▸ ht
    refine ⟨fun q hq t ht => ?_, once_set h hp fun j q t hij hq ht hqt => hij (h.once i j p q t hp hq (hself t ht) hqt),
      htickets ▸ h.nodup, htickets ▸ hspent ▸ h.opened⟩
    show t ∈ w'.spent ∧ t ∉ w'.tickets
    rw [hspent, htickets]
    rcases List.mem_or_eq_of_mem_set hq with hq | rfl
    · exact h.spent q hq t ht
    · exact h.spent p hmem t (hself t ht)
  | signIn o hspent hopened hpt hticket =>
    have htickets := tickets_cons hopened
    have hnone (t : Ticket) : p'.ticket ≠ some t := by
      rw [hticket]
      exact fun h => by cases h
    refine ⟨?_, once_set h hp fun j q t _ _ ht => absurd ht (hnone t), ?_, ?_⟩
    · intro q hq t ht
      obtain ⟨k, hk⟩ := List.mem_iff_getElem?.mp hq
      rcases (Agents.getElem?_set_some hp).mp hk with ⟨-, rfl⟩ | ⟨hik, hk⟩
      · exact absurd ht (hnone t)
      obtain ⟨hin, hnot⟩ := h.spent q (List.mem_of_getElem? hk) t ht
      refine ⟨(show w'.spent = _ from hspent) ▸ hin, fun hmemt => ?_⟩
      rw [show State.world { world := w', requests := s.requests.set i p' } = w' from rfl, htickets] at hmemt
      rcases List.mem_append.mp hmemt with hself | hold
      · exact hik (h.once i k p q t hp hk (hpt ▸ Option.mem_toList.mp hself) ht)
      · exact hnot hold
    · show w'.tickets.Nodup
      rw [htickets]
      refine List.nodup_append'.mpr ⟨?_, h.nodup, fun t hself hold => ?_⟩
      · cases o.factor.ticket <;> simp
      · exact (h.spent p hmem t (hpt ▸ Option.mem_toList.mp hself)).2 hold
    · show ∀ t ∈ w'.tickets, t ∈ w'.spent
      intro t ht
      rw [htickets] at ht
      rw [hspent]
      rcases List.mem_append.mp ht with hself | hold
      · exact (h.spent p hmem t (hpt ▸ Option.mem_toList.mp hself)).1
      · exact h.opened t hold
  | spend t hfresh hspent hopened hticket =>
    have htickets := tickets_congr hopened
    refine ⟨?_, once_set h hp fun j q t' _ hq ht' hqt => ?_, htickets ▸ h.nodup, ?_⟩
    · intro q hq t' ht'
      show t' ∈ w'.spent ∧ t' ∉ w'.tickets
      rw [hspent, htickets]
      rcases List.mem_or_eq_of_mem_set hq with hq | rfl
      · exact ⟨List.mem_cons_of_mem _ (h.spent q hq t' ht').1, (h.spent q hq t' ht').2⟩
      · obtain rfl := Option.some.inj (hticket.symm.trans ht')
        exact ⟨List.mem_cons_self, fun hin => hfresh (h.opened t hin)⟩
    · obtain rfl := Option.some.inj (hticket.symm.trans ht')
      exact hfresh (h.spent q (List.mem_of_getElem? hq) t hqt).1
    · show ∀ t ∈ w'.tickets, t ∈ w'.spent
      intro t' ht'
      rw [htickets] at ht'
      rw [hspent]
      exact List.mem_cons_of_mem _ (h.opened t' ht')

/-! ## Every run -/

structure Factored (lib : Library) (s : State) : Prop where
  requests : ∀ p ∈ s.requests, p.Good lib s.world.now
  world : s.world.Good lib
  tickets : Tickets s.world
  held : Held s

/-- No step is one in which an enrolment or a replay key is late (`Phase.careful`). -/
def careful (s : State) : Label → Bool
  | .run _ .stop => true
  | .run i _ => (s.requests[i]?).all (·.careful s.world)
  | _ => true

theorem run_now (h : w.run lib p pick = some (w', p')) : w'.now = w.now := by
  cases run_ledger h with
  | keep hkept => exact hkept.now
  | _ => rfl

theorem Factored.run (h : Factored lib s) (hp : s.requests[i]? = some p) (hrun : s.world.run lib p pick = some (w', p'))
    (hc : p.careful s.world = true ∨ pick = .stop) : Factored lib { world := w', requests := s.requests.set i p' } := by
  have hmem := List.mem_of_getElem? hp
  obtain ⟨hgood, hworld⟩ := run_good hrun (h.requests p hmem) h.world
  have hledger : Tickets w' ∧ Shift s.world p w' p' := by
    rcases hc with hc | rfl
    · exact ⟨(run_ledger hrun).tickets h.tickets hc (h.requests p hmem), (run_ledger hrun).shift h.tickets hc⟩
    · have hstop : w' = s.world ∧ p' = .done := by
        cases p with
        | done => cases hrun
        | visit _ _ ks => cases ks <;> · cases hrun; exact ⟨rfl, rfl⟩
        | _ => cases hrun; exact ⟨rfl, rfl⟩
      obtain ⟨rfl, rfl⟩ := hstop
      exact ⟨h.tickets, .keep rfl rfl (.inl rfl)⟩
  refine ⟨fun q hq => ?_, hworld, hledger.1, h.held.run hp hledger.2⟩
  rcases List.mem_or_eq_of_mem_set hq with hq | rfl
  · exact (h.requests q hq).later (run_now hrun).ge
  · exact hgood

/-- What comes from elsewhere spends no code and signs in nobody. -/
theorem change_good (c : Change) (hw : w.Good lib) (ht : Tickets w) :
    (w.change c).Good lib ∧ Tickets (w.change c) ∧ w.now ≤ (w.change c).now ∧ (w.change c).spent = w.spent ∧
      (w.change c).opened = w.opened := by
  cases c with
  | tick ms => exact ⟨hw.congr rfl rfl, ht.congr rfl rfl rfl rfl rfl rfl, Nat.le_add_right _ _, rfl, rfl⟩
  | signOut sid => exact ⟨hw.erase, ht.congr rfl rfl rfl rfl rfl rfl, le_rfl, rfl, rfl⟩
  | recovery uid toEmail changed =>
    refine ⟨hw.congr rfl rfl, ⟨fun id hmem => ⟨(ht.mail id hmem).1, fun token htoken => (ht.mail id hmem).2 token ?_⟩,
      fun id token htoken => ht.otps id token ?_, ht.totp, ht.replaced⟩, le_rfl, rfl, rfl⟩
    all_goals
      dsimp only [World.change] at htoken
      split at htoken
      · rw [Table.lookup_delete] at htoken
        exact (Option.filter_eq_some_iff.mp htoken).1
      · exact htoken
  | _ => exact ⟨hw.congr rfl rfl, ht.congr rfl rfl rfl rfl rfl rfl, le_rfl, rfl, rfl⟩

theorem receive_good {r : Request} (hw : w.Good lib) : (w.receive r).Good lib w.now ∧ (w.receive r).ticket = none := by
  have hload (sid : Sid) : ((w.sessions.lookup sid).getD {}).Good lib := by
    cases hs : w.sessions.lookup sid with
    | none => exact fun u hu => by cases hu
    | some session => exact hw.sessions sid session hs
  cases r with
  | challenge sid | verify sid | enable sid => exact ⟨hload sid, rfl⟩
  | _ => exact ⟨trivial, rfl⟩

theorem factored_step {l : Label} (h : Factored lib s) (hg : careful s l = true) (hstep : step lib s l = some s') : Factored lib s' := by
  cases l with
  | change c =>
    obtain rfl := Option.some.inj hstep
    obtain ⟨hw, ht, hnow, hspent, hopened⟩ := change_good c h.world h.tickets
    have htickets := tickets_congr hopened
    refine ⟨fun p hmem => (h.requests p hmem).later hnow, hw, ht, ⟨fun p hmem t hpt => ?_, h.held.once, htickets ▸ h.held.nodup, ?_⟩⟩
    · exact ⟨hspent ▸ (h.held.spent p hmem t hpt).1, htickets ▸ (h.held.spent p hmem t hpt).2⟩
    · exact htickets ▸ hspent ▸ h.held.opened
  | receive r =>
    obtain rfl := Option.some.inj hstep
    obtain ⟨hgood, hticket⟩ := receive_good (r := r) h.world
    have hold {p : Phase} {t : Ticket} (hmem : p ∈ s.requests ++ [s.world.receive r]) (hpt : p.ticket = some t) : p ∈ s.requests := by
      refine (List.mem_append.mp hmem).resolve_right fun hlast => ?_
      rw [List.mem_singleton.mp hlast, hticket] at hpt
      cases hpt
    refine ⟨fun p hmem => ?_, h.world, h.tickets, ⟨fun p hmem t hpt => h.held.spent p (hold hmem hpt) t hpt, ?_, h.held.nodup, h.held.opened⟩⟩
    · rcases List.mem_append.mp hmem with hmem | hmem
      · exact h.requests p hmem
      · exact List.mem_singleton.mp hmem ▸ hgood
    · intro i j p q t hi hj hpt hqt
      have hsome {k : Nat} {p : Phase} (hk : (s.requests ++ [s.world.receive r])[k]? = some p) (hpt : p.ticket = some t) :
          s.requests[k]? = some p := by
        refine (Agents.getElem?_append_some.mp hk).resolve_right fun ⟨_, hlast⟩ => ?_
        rw [hlast, hticket] at hpt
        cases hpt
      exact h.held.once i j p q t (hsome hi hpt) (hsome hj hqt) hpt hqt
  | run i pick =>
    obtain ⟨p, w', p', hp, hrun, rfl⟩ := run_step hstep
    refine h.run hp hrun ?_
    cases pick with
    | stop => exact .inr rfl
    | _ =>
      have hg : (s.requests[i]?).all (·.careful s.world) = true := hg
      rw [hp] at hg
      exact .inl hg

theorem factored_invariant : (system lib).Invariant (fun s l => careful s l = true) (Factored lib) where
  init := by
    rintro s ⟨hi, hr⟩
    refine ⟨?_, ⟨?_, ?_, ?_⟩, ⟨?_, ?_, ?_, ?_⟩, ⟨?_, ?_, ?_, ?_⟩⟩ <;>
      simp [hr, hi.sessions, hi.opened, hi.spent, hi.otps, hi.replaced, World.tickets]
  step := factored_step

/-- In every run in which no enrolment and no replay key is late: a session that is signed in was opened on a password of its user
that matched, and, when 2FA was enabled or required as the login read it, with a factor that was good for the user; the user was
not disabled when the request read the row; no mailed code and no period's code of an authenticator opened two sessions; and no
enrolment wrote its secret over that of a user with 2FA. -/
theorem factor_required (hs : (system lib).ReachesUnder (fun s l => careful s l = true) s) :
    (∀ sid session u, s.world.sessions.lookup sid = some session → session.userId = some u →
      ∃ o ∈ s.world.opened, o.user = u ∧ o.chain = session.chain) ∧
    (∀ o ∈ s.world.opened, o.Sound lib) ∧ s.world.tickets.Nodup ∧ ∀ row ∈ s.world.replaced, row.totp_enabled = false := by
  have h := factored_invariant.reachesUnder hs
  exact ⟨h.world.signedIn, h.world.opened, h.held.nodup, h.tickets.replaced⟩

def boris : User where
  username := "boris"
  password_hash := "hash 0"

def required : Settings where
  mfa_enforcement := "required"

/-- A password sign-in that has to enrol, and the secret that it was shown. -/
def enrolLabels : List Label :=
  [.receive (.login 7 { username := "boris", password := "old password", cookie := none }), .run 0 .next, .run 0 (.row 1), .run 0 .next,
    .run 0 .next, .run 0 .next, .run 0 .next, .receive (.setup 0), .run 1 .next, .run 1 (.text "GEZDGNBVGY3TQOJQ")]

/-- The code is confirmed. -/
def enableLabels : List Label :=
  [.receive (.enable 0 "287082"), .run 2 .next, .run 2 .next, .run 2 .next, .run 2 .next, .run 2 .next, .run 2 .next]

/-- An enrolment of a user who has no 2FA. -/
theorem factor_required_enrolled : ∃ s : State, (system exampleLibrary).ReachesUnder (fun s l => careful s l = true) s ∧
    ∃ o ∈ s.world.opened, o.factor.ticket = some (.totp 1 "287082" 1) ∧ o.Sound exampleLibrary := by
  have htrace : ((system exampleLibrary).exec (fun s l => careful s l = true) (exampleState boris required)
      (enrolLabels ++ enableLabels)).any (fun s => s.world.opened.any fun o => o.factor.ticket = some (.totp 1 "287082" 1)) = true := by
    decide +kernel
  obtain ⟨s, hs, hp⟩ := TransitionSystem.reaches_of_exec exampleState_init htrace
  obtain ⟨o, hmem, ho⟩ := List.any_eq_true.mp hp
  exact ⟨s, hs, o, hmem, of_decide_eq_true ho, (factor_required hs).2.1 o hmem⟩

/-- An enrolment that is confirmed after the user enabled 2FA elsewhere writes its secret over the one that was enabled. -/
theorem factor_required_replaced : ∃ s : State, (system exampleLibrary).Reachable s ∧
    (∃ row ∈ s.world.replaced, row.totp_enabled = true ∧ row.totp_secret = "JBSWY3DPEHPK3PXP") ∧
    ∃ user, s.world.users.lookup 1 = some user ∧ user.totp_secret = "GEZDGNBVGY3TQOJQ" := by
  have htrace : ((system exampleLibrary).exec TransitionSystem.anyStep (exampleState boris required)
      (enrolLabels ++ [.change (.totpOn 1 "JBSWY3DPEHPK3PXP")] ++ enableLabels)).any (fun s =>
        (s.world.replaced.any fun row => row.totp_enabled && row.totp_secret = some "JBSWY3DPEHPK3PXP") &&
        (s.world.users.lookup 1).any fun user => user.totp_secret = some "GEZDGNBVGY3TQOJQ") = true := by
    decide +kernel
  obtain ⟨s, hs, hp⟩ := TransitionSystem.reaches_of_exec exampleState_init htrace
  simp only [Bool.and_eq_true, List.any_eq_true, Option.any_eq_true, decide_eq_true_eq] at hp
  obtain ⟨⟨row, hmem, hrow⟩, user, huser, hsecret⟩ := hp
  exact ⟨s, hs, ⟨row, hmem, hrow⟩, user, huser, hsecret⟩

end MailExpert.SignIn
