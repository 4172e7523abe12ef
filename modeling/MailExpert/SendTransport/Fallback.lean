import MailExpert.SendTransport.Failure

/-!
# A letter that may have been accepted is not sent again

`services/mailSendTransport.js`: one send over the Gmail API, with its retries without the thread
id and with a refreshed token, and the fallback to SMTP. A send returns every attempt it made, in
order, besides its result.
-/

namespace MailExpert.SendTransport

/-- How SMTP ended a send that failed. `bytesSent` is what no error tells, whether a byte of the
message may have left. -/
structure SmtpFailure where
  code : Option String
  responseCode : Option Nat
  message : String
  bytesSent : Bool

def SmtpFailure.error (f : SmtpFailure) : SendError :=
  { message := f.message, code := f.code, responseCode := f.responseCode }

/-- Without a reply of the server, an error that looks like one from before the message is one. -/
def SmtpFailure.Faithful (f : SmtpFailure) : Prop :=
  isReply f.responseCode = false → sendFailureIsDefinite f.error = true → f.bytesSent = false

inductive SmtpAnswer
  | accepted (rejected : List String)
  | failed (f : SmtpFailure) (faithful : f.Faithful)

/-- `createAccountSmtpTransport`. -/
inductive SmtpSetup
  | ready
  | refused (error : String) (status : Option Nat) (code : Option String)
  | threw (err : SendError)

/-- Everything a send asks of others, and their answers: the API to its i-th attempt. -/
structure Answers where
  built : Bool
  /-- The stored access token, decrypted. -/
  token : Except SendError Unit
  api : Nat → ApiAnswer
  refresh : Except SendError Unit
  smtpSetup : SmtpSetup
  smtp : SmtpAnswer
  /-- `getSentMessageIdHeader`. -/
  sentHeader : Option String

inductive Attempt
  | api (threadId refreshed : Bool) (answer : ApiAnswer)
  | smtp (answer : SmtpAnswer)

/-- A sent letter: `via`, `messageId` and the recipients SMTP refused. -/
structure Sent where
  via : String
  messageId : String
  rejected : List String := []

abbrev Send (α : Type) := List Attempt × Except SendError α

variable (answers : Answers)

def attemptGmailApiSend (refreshed threadId : Bool) (made : List Attempt) :
    Send (Option String) :=
  let answer := answers.api made.length
  (made ++ [.api threadId refreshed answer], (postGmailApiSend answer).mapError gmailSendError)

def is4xxResponse (err : SendError) : Bool :=
  (err.classification.bind (·.status)).any fun status => 400 ≤ status ∧ status < 500

/-- `err?.gmailClassification?.kind`. -/
def SendError.kind (err : SendError) : Option Kind := err.classification.map (·.kind)

def attemptWithThreadFallback (refreshed threadId : Bool) (made : List Attempt) :
    Send (Option String) :=
  match attemptGmailApiSend answers refreshed threadId made with
  | (made, .error err) =>
    if threadId ∧ err.kind ≠ some .authRetry ∧ is4xxResponse err then
      attemptGmailApiSend answers refreshed false made
    else (made, .error err)
  | sent => sent

def tokenRejected (err : SendError) : SendError where
  message := "Gmail API rejected the access token after a refresh"
  classification := some {
    kind := .reconnect
    googleMessage := (err.classification.map (·.googleMessage)).getD "", status := some 401 }

def retryWithFreshToken (threadId : Bool) (made : List Attempt) : Send (Option String) :=
  match answers.refresh with
  | .error err => (made, .error err)
  | .ok _ => match attemptWithThreadFallback answers true threadId made with
    | (made, .error retryErr) =>
      (made, .error (if retryErr.kind = some .authRetry then tokenRejected retryErr else retryErr))
    | sent => sent

def sendGmailApiMessage (threadId : Bool) : Send (Option String) :=
  match answers.token with
  | .error err => ([], .error err)
  | .ok _ => match attemptWithThreadFallback answers false threadId [] with
    | (made, .error err) =>
      if err.kind ≠ some .authRetry then (made, .error err)
      else retryWithFreshToken answers threadId made
    | sent => sent

def buildFailed : SendError where
  message := "Failed to build the message for sending. Please try again."
  code := some "mail_build_failed"
  status := some 500
  definite := true

/-- The send over SMTP, once the API did not take the letter. -/
def fallBackToSmtp (messageId : String) (made : List Attempt) : Send Sent :=
  match answers.smtpSetup with
  | .refused error status code =>
    (made, .error { message := error, status, code, definite := true })
  | .threw err => (made, .error err)
  | .ready =>
    (made ++ [.smtp answers.smtp], match answers.smtp with
      | .accepted rejected => .ok { via := "smtp", messageId, rejected }
      | .failed f _ => .error f.error)

def sendViaGmailApiWithFallback (messageId : String) (threadId : Bool) : Send Sent :=
  if ¬answers.built then ([], .error buildFailed)
  else match sendGmailApiMessage answers threadId with
    | (made, .ok id) =>
      (made, .ok { via := "api", messageId := (id.bind fun _ => answers.sentHeader).getD messageId })
    | (made, .error err) => match err.kind with
      | some .reconnect => (made, .error (oauthTokenError "oauth_reconnect_required"))
      | some (.fallback ..) => fallBackToSmtp answers messageId made
      | _ => (made, .error err)

/-! ## What the attempts of a send were answered -/

/-- Which answers refuse a letter: the statuses of the API from `leastStatus` on, and the reply codes
of SMTP below `replyLimit`. -/
structure Refusals where
  leastStatus : Nat
  replyLimit : Nat

/-- Only 4xx. -/
def Refusals.client : Refusals := ⟨400, 500⟩

/-- Every answer of the API but 2xx and 5xx, and every 4xx and 5xx reply of SMTP. -/
def Refusals.explicit : Refusals := ⟨0, 600⟩

/-- The attempt certainly sent nothing: it was refused, or ended before any byte of the message. -/
def Attempt.Refused (r : Refusals) : Attempt → Prop
  | .api _ _ (.http status _ _) =>
    r.leastStatus ≤ status ∧ status < 500 ∧ isOk status = false
  | .api _ _ (.network f) => f.bytesSent = false
  | .smtp (.accepted _) => False
  | .smtp (.failed f _) =>
    (∃ c, f.responseCode = some c ∧ 400 ≤ c ∧ c < r.replyLimit) ∨ f.bytesSent = false

/-- A 5xx answer of the API. -/
def Attempt.IsServerError : Attempt → Prop
  | .api _ _ (.http status _ _) => 500 ≤ status
  | _ => False

/-- A 5xx answer whose reasons or text are taken for something else. -/
def Attempt.misread : Attempt → Bool
  | .api _ _ (.http status error _) => decide (status ≥ 500) &&
    (error.reasons.contains "dailyLimitExceeded" || error.reasons.any isRateLimitReason ||
      connectionText error.googleMessage)
  | _ => false

/-- Nothing is sent after an attempt that may have been accepted, the letter is not sent again, and
a 5xx answer of the API needs someone's attention. -/
structure SentOnce (r : Refusals) (account : Account) (send : Send Sent) : Prop where
  further : ∀ before a after, send.1 = before ++ a :: after → after ≠ [] → a.Refused r
  outcome : ∀ err, send.2 = .error err → (deliveryFailure err account).outcome ≠ .needsAttention →
    ∀ a ∈ send.1, a.Refused r
  serverError : ∀ before a after, send.1 = before ++ a :: after → a.IsServerError →
    after = [] ∧ ∃ err, send.2 = .error err ∧
      (deliveryFailure err account).outcome = .needsAttention

variable {answers} {made before : List Attempt} {a : Attempt} {err : SendError} {r : Refusals}
  {account : Account} {result : Except SendError Sent} {c : Classification} {answer : ApiAnswer}
  {threadId refreshed : Bool}

theorem Attempt.Refused.not_isServerError (h : a.Refused r) : ¬a.IsServerError := by
  intro hs
  match a, h, hs with
  | .api _ _ (.http status _ _), h, hs => exact Nat.not_lt.mpr hs h.2.1

theorem sentOnce_of_refused (h : ∀ a ∈ made, a.Refused r) :
    SentOnce r account (made, result) where
  further before a after hm _ := h a (by
    dsimp only at hm
    simp [hm])
  outcome _ _ _ := h
  serverError before a after hm hs := by
    have hmem : a ∈ made := by
      dsimp only at hm
      simp [hm]
    exact absurd hs (h a hmem).not_isServerError

/-- An attempt is the last one, or one before it. -/
theorem eq_or_mem_of_snoc {pre post : List Attempt} {b : Attempt}
    (h : before ++ [a] = pre ++ b :: post) : (post = [] ∧ b = a) ∨ (post ≠ [] ∧ b ∈ before) := by
  rcases List.eq_nil_or_concat post with rfl | ⟨post, z, rfl⟩
  · have hlast := (List.append_inj' h rfl).2
    exact .inl ⟨rfl, (List.singleton_inj.mp hlast).symm⟩
  · have h' : before ++ [a] = (pre ++ b :: post) ++ [z] := by simpa using h
    have hbefore := (List.append_inj' h' rfl).1
    exact .inr ⟨by simp, by simp [hbefore]⟩

/-- Only the last attempt may have been accepted. -/
theorem sentOnce_of_last (h : ∀ a ∈ before, a.Refused r)
    (houtcome : ∀ err, result = .error err →
      (deliveryFailure err account).outcome ≠ .needsAttention → a.Refused r)
    (hserver : a.IsServerError → ∃ err, result = .error err ∧
      (deliveryFailure err account).outcome = .needsAttention) :
    SentOnce r account (before ++ [a], result) where
  further pre b post hm hpost := by
    rcases eq_or_mem_of_snoc hm with ⟨rfl, -⟩ | ⟨-, hb⟩
    · exact absurd rfl hpost
    · exact h b hb
  outcome err he hne b hb := by
    rcases List.mem_append.mp hb with hb | hb
    · exact h b hb
    · exact List.mem_singleton.mp hb ▸ houtcome err he hne
  serverError pre b post hm hs := by
    rcases eq_or_mem_of_snoc hm with ⟨hpost, rfl⟩ | ⟨-, hb⟩
    · exact ⟨hpost, hserver hs⟩
    · exact absurd hs (h b hb).not_isServerError

/-! ## Classifications -/

theorem gmailSendError_classification : (gmailSendError c).classification = some c := by
  unfold gmailSendError
  split <;> rfl

theorem gmailSendError_kind : (gmailSendError c).kind = some c.kind := by
  rw [SendError.kind, gmailSendError_classification]
  rfl

/-- A 5xx answer that is read right has no reason or text that stands for something else. -/
theorem Attempt.of_not_misread {status : Nat} {e : ApiError} {id : Option String}
    (hread : (Attempt.api threadId refreshed (.http status e id)).misread = false)
    (hserver : 500 ≤ status) : e.reasons.contains "dailyLimitExceeded" = false ∧
      e.reasons.any isRateLimitReason = false ∧ connectionText e.googleMessage = false := by
  simpa [misread, hserver, and_assoc] using hread

/-- A 5xx answer is uncertain, and only a 5xx answer is. -/
theorem classifyGmailApiResponseError_kind {status : Nat} {e : ApiError} (hreasons : 500 ≤ status →
      e.reasons.contains "dailyLimitExceeded" = false ∧ e.reasons.any isRateLimitReason = false) :
    if (classifyGmailApiResponseError status e).kind = .uncertain then 500 ≤ status
    else status < 500 := by
  have hclient (hr : e.reasons.contains "dailyLimitExceeded" = true ∨
      e.reasons.any isRateLimitReason = true) : status < 500 := by
    apply Nat.lt_of_not_le
    intro hserver
    obtain ⟨hd, hl⟩ := hreasons hserver
    rw [hd, hl] at hr
    simp at hr
  have hcertain {c : Prop} [Decidable c] {x y : Classification} (hx : x.kind ≠ .uncertain) (hc : c → status < 500)
      (hy : ¬c → if y.kind = .uncertain then 500 ≤ status else status < 500) :
      if (if c then x else y).kind = .uncertain then 500 ≤ status else status < 500 := by
    by_cases h : c
    · rw [if_pos h, if_neg hx]
      exact hc h
    · rw [if_neg h]
      exact hy h
  unfold classifyGmailApiResponseError
  refine hcertain nofun (fun h => by omega) fun _ => ?_
  refine hcertain nofun (fun h => by omega) fun _ => ?_
  refine hcertain nofun (fun h => by omega) fun _ => ?_
  refine hcertain nofun (fun h => hclient (.inl h)) fun _ => ?_
  refine hcertain nofun (fun h => h.elim (fun _ => by omega) fun h => hclient (.inr h)) fun _ => ?_
  by_cases hserver : status ≥ 500
  · rw [if_pos hserver, if_pos rfl]
    exact hserver
  have hlt := Nat.lt_of_not_le hserver
  rw [if_neg hserver]
  refine hcertain nofun (fun _ => hlt) fun _ => hcertain nofun (fun _ => hlt) fun _ => hcertain nofun (fun _ => hlt) fun _ => ?_
  rw [if_neg nofun]
  exact hlt

theorem classifyGmailApiResponseError_eq (status : Nat) (e : ApiError) : ∃ kind, classifyGmailApiResponseError status e =
    { kind, googleMessage := e.googleMessage, status := some status } ∧ kind ≠ .authRetry := by
  unfold classifyGmailApiResponseError
  repeat refine iteInduction (motive := fun x : Classification => ∃ kind, x = { kind, googleMessage := e.googleMessage, status := some status } ∧
    kind ≠ .authRetry) (fun _ => ⟨_, rfl, nofun⟩) fun _ => ?_
  exact ⟨_, rfl, nofun⟩

/-- An uncertain end needs someone's attention, unless its text reads like a failed connection. -/
theorem deliveryFailure_uncertain (hk : c.kind = .uncertain)
    (ht : connectionText c.googleMessage = false) :
    (deliveryFailure (gmailSendError c) account).outcome = .needsAttention := by
  have htext : connectionText (if c.googleMessage = "" then "Gmail API send failed (uncertain)"
      else c.googleMessage) = false := by
    split
    · decide
    · exact ht
  have herr : gmailSendError c = {
      message := if c.googleMessage = "" then "Gmail API send failed (uncertain)"
        else c.googleMessage
      classification := some c } := by
    rw [gmailSendError, hk]
    rfl
  rw [herr]
  simp [deliveryFailure, oauthFailure, sendFailureIsDefinite, smtpFailureIsDefinite, isReply, htext]

/-- An attempt that failed is refused, or its end is uncertain and the letter is not sent again. -/
theorem postGmailApiSend_error (h : postGmailApiSend answer = .error c)
    (hread : (Attempt.api threadId refreshed answer).misread = false) :
    if c.kind = .uncertain then (deliveryFailure (gmailSendError c) account).outcome = .needsAttention
    else (Attempt.api threadId refreshed answer).Refused .explicit := by
  cases answer with
  | http status e id =>
    simp only [postGmailApiSend] at h
    split at h
    · cases h
    · next hok =>
      have hok : isOk status = false := by simpa using hok
      have hserver := Attempt.of_not_misread hread
      split at h
      · next h401 =>
        cases h
        rw [if_neg nofun]
        exact ⟨Nat.zero_le _, by omega, hok⟩
      · cases h
        have hkind := classifyGmailApiResponseError_kind fun hs =>
          ⟨(hserver hs).1, (hserver hs).2.1⟩
        split at hkind
        · next hk =>
          rw [if_pos hk]
          apply deliveryFailure_uncertain hk
          obtain ⟨kind, hclass, -⟩ := classifyGmailApiResponseError_eq status e
          rw [hclass]
          exact (hserver hkind).2.2
        · next hk =>
          rw [if_neg hk]
          exact ⟨Nat.zero_le _, hkind, hok⟩
  | network f =>
    simp only [postGmailApiSend, Except.error.injEq] at h
    subst h
    have hempty : connectionText "" = false := by decide
    simp only [classifyGmailApiNetworkError]
    split
    · rw [if_pos rfl]
      exact deliveryFailure_uncertain rfl hempty
    · next hname =>
      split
      · next code hcode =>
        split
        · next hpre =>
          rw [if_neg nofun]
          exact f.preSend hname ⟨code, hcode, hpre⟩
        · rw [if_pos rfl]
          exact deliveryFailure_uncertain rfl hempty
      · rw [if_pos rfl]
        exact deliveryFailure_uncertain rfl hempty

theorem refused_of_is4xx (h : postGmailApiSend answer = .error c)
    (h4xx : is4xxResponse (gmailSendError c) = true) :
    (Attempt.api threadId refreshed answer).Refused .explicit := by
  rw [is4xxResponse, gmailSendError_classification, Option.bind_some] at h4xx
  cases answer with
  | http status e id =>
    simp only [postGmailApiSend] at h
    split at h
    · cases h
    · next hok =>
      split at h
      · cases h
        cases h4xx
      · cases h
        obtain ⟨kind, hclass, -⟩ := classifyGmailApiResponseError_eq status e
        rw [hclass] at h4xx
        have hrange : 400 ≤ status ∧ status < 500 := by simpa using h4xx
        exact ⟨Nat.zero_le _, hrange.2, by simpa using hok⟩
  | network f =>
    simp only [postGmailApiSend, Except.error.injEq] at h
    subst h
    simp only [classifyGmailApiNetworkError] at h4xx
    split at h4xx
    · cases h4xx
    · split at h4xx
      · split at h4xx <;> cases h4xx
      · cases h4xx

/-- A rejected token is a 401 answer. -/
theorem refused_of_authRetry (h : postGmailApiSend answer = .error c) (hk : c.kind = .authRetry) :
    (Attempt.api threadId refreshed answer).Refused .explicit := by
  cases answer with
  | http status e id =>
    simp only [postGmailApiSend] at h
    split at h
    · cases h
    · next hok =>
      split at h
      · next h401 => exact ⟨Nat.zero_le _, by omega, by simpa using hok⟩
      · cases h
        obtain ⟨kind, hclass, hne⟩ := classifyGmailApiResponseError_eq status e
        rw [hclass] at hk
        exact absurd hk hne
  | network f =>
    simp only [postGmailApiSend, Except.error.injEq] at h
    subst h
    simp only [classifyGmailApiNetworkError] at hk
    split at hk
    · cases hk
    · split at hk
      · split at hk <;> cases hk
      · cases hk

/-! ## Runs -/

/-- The result is that of the last attempt, and those before it were refused. -/
def Reports (send : Send (Option String)) : Prop :=
  ∃ before threadId refreshed answer,
    send.1 = before ++ [.api threadId refreshed answer] ∧ (∀ a ∈ before, a.Refused .explicit) ∧
      send.2 = (postGmailApiSend answer).mapError gmailSendError

theorem Reports.error {send : Send (Option String)} (h : Reports send)
    (he : send.2 = .error err) : ∃ before threadId refreshed answer c,
      send.1 = before ++ [.api threadId refreshed answer] ∧ (∀ a ∈ before, a.Refused .explicit) ∧
        postGmailApiSend answer = .error c ∧ err = gmailSendError c := by
  obtain ⟨before, threadId, refreshed, answer, hm, hb, hr⟩ := h
  rw [hr] at he
  cases hpost : postGmailApiSend answer with
  | ok id =>
    rw [hpost] at he
    cases he
  | error c =>
    rw [hpost] at he
    cases he
    exact ⟨before, threadId, refreshed, answer, c, hm, hb, hpost, rfl⟩

theorem attemptGmailApiSend_reports (h : ∀ a ∈ made, a.Refused .explicit) :
    Reports (attemptGmailApiSend answers refreshed threadId made) :=
  ⟨made, threadId, refreshed, _, rfl, h, rfl⟩

theorem attemptWithThreadFallback_reports (h : ∀ a ∈ made, a.Refused .explicit) :
    Reports (attemptWithThreadFallback answers refreshed threadId made) := by
  have hfirst : Reports (attemptGmailApiSend answers refreshed threadId made) :=
    attemptGmailApiSend_reports h
  unfold attemptWithThreadFallback
  split
  · next made' err hsend =>
    rw [hsend] at hfirst
    split
    · next hagain =>
      obtain ⟨before, t, r, answer, c, hm, hb, hpost, rfl⟩ := hfirst.error rfl
      apply attemptGmailApiSend_reports
      intro a ha
      dsimp only at hm
      rw [hm] at ha
      rcases List.mem_append.mp ha with ha | ha
      · exact hb a ha
      · exact List.mem_singleton.mp ha ▸ refused_of_is4xx hpost hagain.2.2
    · exact hfirst
  · exact hfirst

/-- The result is that of the last attempt, or an error and every attempt was refused. -/
theorem sendGmailApiMessage_reports : Reports (sendGmailApiMessage answers threadId) ∨
    (∀ a ∈ (sendGmailApiMessage answers threadId).1, a.Refused .explicit) ∧
      ∃ err, (sendGmailApiMessage answers threadId).2 = .error err := by
  have hauth {refreshed : Bool} {made made' : List Attempt} {err : SendError}
      (h : ∀ a ∈ made, a.Refused .explicit)
      (hsend : attemptWithThreadFallback answers refreshed threadId made = (made', .error err))
      (hk : err.kind = some .authRetry) : ∀ a ∈ made', a.Refused .explicit := by
    have hr : Reports (attemptWithThreadFallback answers refreshed threadId made) :=
      attemptWithThreadFallback_reports h
    rw [hsend] at hr
    obtain ⟨before, t, r, answer, c, rfl, hb, hpost, rfl⟩ := hr.error rfl
    rw [gmailSendError_kind, Option.some.injEq] at hk
    intro a ha
    rcases List.mem_append.mp ha with ha | ha
    · exact hb a ha
    · exact List.mem_singleton.mp ha ▸ refused_of_authRetry hpost hk
  have hnone : ∀ a ∈ ([] : List Attempt), a.Refused .explicit := nofun
  have hfirst : Reports (attemptWithThreadFallback answers false threadId []) :=
    attemptWithThreadFallback_reports hnone
  unfold sendGmailApiMessage
  split
  · exact .inr ⟨nofun, _, rfl⟩
  · split
    · next made err hsend =>
      split
      · exact .inl (hsend ▸ hfirst)
      · next hk =>
        have hmade := hauth hnone hsend (not_not.mp hk)
        unfold retryWithFreshToken
        split
        · exact .inr ⟨hmade, _, rfl⟩
        · have hsecond : Reports (attemptWithThreadFallback answers true threadId made) :=
            attemptWithThreadFallback_reports hmade
          split
          · next made' retryErr hretry =>
            split
            · next hk' => exact .inr ⟨hauth hmade hretry hk', _, rfl⟩
            · exact .inl (hretry ▸ hsecond)
          · exact .inl hsecond
    · exact .inl hfirst

/-- Only a failure before the message, or one the server named, is retried or given up. -/
theorem definite_of_outcome (h : (deliveryFailure err account).outcome ≠ .needsAttention) :
    sendFailureIsDefinite err = true := by
  unfold deliveryFailure at h
  split at h
  · next text ho => simp [sendFailureIsDefinite, ho]
  · split at h
    · next hd => simp [sendFailureIsDefinite, hd.1]
    · split at h
      · exact absurd rfl h
      · next hd => exact not_not.mp hd

theorem fallBackToSmtp_sentOnce {messageId : String} (h : ∀ a ∈ made, a.Refused .explicit) :
    SentOnce .explicit account (fallBackToSmtp answers messageId made) := by
  unfold fallBackToSmtp
  split
  · exact sentOnce_of_refused h
  · exact sentOnce_of_refused h
  · refine sentOnce_of_last h (fun err he houtcome => ?_) nofun
    cases hsmtp : answers.smtp with
    | accepted rejected =>
      rw [hsmtp] at he
      cases he
    | failed f hfaithful =>
      rw [hsmtp] at he
      cases he
      cases hreply : isReply f.responseCode with
      | false => exact .inr (hfaithful hreply (definite_of_outcome houtcome))
      | true =>
        obtain ⟨c, hc, hrange⟩ := (Option.any_eq_true _ _).mp hreply
        exact .inl ⟨c, hc, of_decide_eq_true hrange⟩

theorem not_isServerError_of_ok {id : Option String} (h : postGmailApiSend answer = .ok id) :
    ¬(Attempt.api threadId refreshed answer).IsServerError := by
  intro hs
  cases answer with
  | http status e id =>
    simp only [postGmailApiSend] at h
    split at h
    · next hok =>
      have hle : 500 ≤ status := hs
      have hlt : status < 300 := (of_decide_eq_true hok).2
      omega
    · split at h <;> cases h
  | network f => cases hs

/-- The attempts of the API are among those of the send. -/
theorem mem_sendViaGmailApiWithFallback {messageId : String} (hbuilt : answers.built = true)
    (ha : a ∈ (sendGmailApiMessage answers threadId).1) :
    a ∈ (sendViaGmailApiWithFallback answers messageId threadId).1 := by
  unfold sendViaGmailApiWithFallback
  rw [if_neg (not_not.mpr hbuilt)]
  split
  · next hsend => rwa [hsend] at ha
  · next hsend =>
    rw [hsend] at ha
    split
    · exact ha
    · unfold fallBackToSmtp
      split
      · exact ha
      · exact ha
      · exact List.mem_append_left _ ha
    · exact ha

/-- The API rejects the token, then throttles; SMTP answers 550 after the message. -/
def rejectedAfterData : Answers where
  built := true
  token := .ok ()
  api i := .http (if i = 0 then 401 else 429) {} none
  refresh := .ok ()
  smtpSetup := .ready
  smtp := .failed {
    code := some "EMESSAGE", responseCode := some 550, message := "Message failed: 550 spam"
    bytesSent := true } (by intro h; cases h)
  sentHeader := none

end MailExpert.SendTransport
