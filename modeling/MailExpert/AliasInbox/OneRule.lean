import MailExpert.AliasInbox.Rules

/-!
# One rule

Both sides pick the same alias for every letter (`matchReplyAlias_eq`). They differ in who wrote it: the pill trims the stored addresses
before it compares and takes no empty one, the server compares them as they are stored. That decides the letter only when an alias wrote it,
and only through its recipients (`alias_inbox`).
-/

namespace MailExpert.AliasInbox

variable {lower : Text → Text} {account : Account} {message : Message} {folderList : List Folder} {e : Text} {seen : List Text}
  {aliases : List Alias}

/-- What the rule uses of `toLowerCase`. -/
structure LowerCase (lower : Text → Text) : Prop where
  eq_nil : ∀ t, lower t = [] ↔ t = []
  /-- White space stays white space, and nothing else becomes it. -/
  trim : ∀ t, lower (trim t) = trim (lower t)

/-- No address of the letter has white space around it. -/
structure Message.Trimmed (message : Message) : Prop where
  sender : ∀ t, message.fromEmail = some t → trim t = t
  delivered : ∀ t ∈ message.deliveryAddresses, trim t = t
  addressed : ∀ r ∈ message.toAddresses ++ message.ccAddresses, ∀ t, r.email = some t → trim t = t

/-- The server's list of aliases has the same first match for every test that fails for the empty address. -/
theorem find_replyAliases {p : Text → Bool} {own : Text} (hnil : p [] = false) (hown : own ∈ seen)
    (hseen : ∀ e ∈ seen, e = own ∨ p e = false) :
    ((aliases.filter fun a => lower a.email ≠ own).find? fun a => p (lower a.email)).map (fun a => lower a.email) =
      ((replyAliasesFrom lower seen aliases).map Alias.email).find? p := by
  induction aliases generalizing seen with
  | nil => rfl
  | cons a aliases ih =>
    by_cases hskip : lower a.email = [] ∨ lower a.email ∈ seen
    · -- an address that the server leaves out is the mailbox's own, or fails the test
      have hrest := ih hown hseen
      simp only [replyAliasesFrom, hskip, if_true]
      rw [← hrest]
      by_cases hsame : lower a.email = own
      · rw [List.filter_cons_of_neg (by simpa using hsame)]
      · have hfails : p (lower a.email) = false := by
          obtain hempty | hmem := hskip
          · rw [hempty]; exact hnil
          · exact (hseen _ hmem).resolve_left hsame
        rw [List.filter_cons_of_pos (by simpa using hsame), List.find?_cons_of_neg (by simp [hfails])]
    · obtain ⟨-, hnew⟩ := not_or.mp hskip
      have hother : lower a.email ≠ own := fun heq => hnew (heq ▸ hown)
      simp only [replyAliasesFrom, hskip, if_false, List.map_cons]
      rw [List.filter_cons_of_pos (by simpa using hother)]
      cases htakes : p (lower a.email) with
      | true => simp only [List.find?_cons, htakes, Option.map_some]
      | false =>
        simp only [List.find?_cons, htakes]
        refine ih (List.mem_cons_of_mem _ hown) fun e he => ?_
        obtain rfl | he := List.mem_cons.mp he
        · exact .inr htakes
        · exact hseen e he

theorem mem_replyAliasesFrom {a : Alias} (h : a ∈ replyAliasesFrom lower seen aliases) :
    a.email ≠ [] ∧ a.email ∉ seen ∧ ∃ b ∈ aliases, lower b.email = a.email := by
  induction aliases generalizing seen with
  | nil => cases h
  | cons b aliases ih =>
    simp only [replyAliasesFrom] at h
    split at h
    next =>
      obtain ⟨hne, hnew, b', hb', heq⟩ := ih h
      exact ⟨hne, hnew, b', List.mem_cons_of_mem _ hb', heq⟩
    next hskip =>
      obtain ⟨hempty, hnew⟩ := not_or.mp hskip
      obtain rfl | h := List.mem_cons.mp h
      · exact ⟨hempty, hnew, b, List.mem_cons_self, rfl⟩
      · obtain ⟨hne, hnew', b', hb', heq⟩ := ih h
        exact ⟨hne, fun hmem => hnew' (List.mem_cons_of_mem _ hmem), b', List.mem_cons_of_mem _ hb', heq⟩

/-! ### The two tests -/

def deliveredTo (lower : Text → Text) (message : Message) (e : Text) : Bool := (message.deliveryAddresses.map lower).contains e

def headed (lower : Text → Text) (message : Message) (e : Text) : Bool :=
  (((message.toAddresses ++ message.ccAddresses).map fun r => r.email.map lower).contains (some e)) || e = (message.fromEmail.map lower).getD []

theorem lower_sender (hlower : LowerCase lower) : lower (message.fromEmail.getD []) = (message.fromEmail.map lower).getD [] := by
  cases message.fromEmail with
  | none => exact (hlower.eq_nil []).mpr rfl
  | some t => rfl

theorem contains_delivered : ((message.deliveryAddresses.map lower).filter (· ≠ [])).contains e = (e ≠ [] && deliveredTo lower message e) := by
  rw [Bool.eq_iff_iff]
  simp [deliveredTo, and_comm]

theorem headed_pill (hlower : LowerCase lower) :
    ((((message.toAddresses ++ message.ccAddresses).filterMap fun r => r.email.map lower).filter (· ≠ [])).contains e ||
      (lower (message.fromEmail.getD []) ≠ [] && lower (message.fromEmail.getD []) = e)) = (e ≠ [] && headed lower message e) := by
  rw [lower_sender hlower, Bool.eq_iff_iff]
  by_cases he : e = []
  · subst he
    simp
  · simp only [headed, Bool.or_eq_true, Bool.and_eq_true, List.contains_iff_mem, List.mem_filter, List.mem_filterMap, List.mem_map, decide_eq_true_eq, ne_eq,
      he, not_false_eq_true, and_true, true_and]
    constructor
    · rintro (h | ⟨-, h⟩)
      · exact .inl h
      · exact .inr h.symm
    · rintro (h | h)
      · exact .inl h
      · exact .inr ⟨h ▸ he, h.symm⟩

theorem eqAny_true {array : List (Option Text)} : eqAny e array = some true ↔ some e ∈ array := by
  simp only [eqAny]
  split
  next h => simpa using h
  next h =>
    have hnot : some e ∉ array := by simpa using h
    split <;> simp [hnot]

theorem sqlOr_true {a : Option Bool} {b : Bool} : sqlOr a (some b) = some true ↔ a = some true ∨ b = true := by
  cases b <;> rcases a with _ | _ | _ <;> simp [sqlOr]

theorem delivered_server : decide (eqAny e ((message_delivery_addresses lower message.deliveryAddresses).map some) = some true) =
    deliveredTo lower message e := by
  rw [Bool.eq_iff_iff, decide_eq_true_eq, eqAny_true]
  simp [message_delivery_addresses, deliveredTo]

theorem headed_server :
    decide (sqlOr (eqAny e (message_recipient_addresses lower message.toAddresses message.ccAddresses))
      (some (e = (message.fromEmail.map lower).getD [])) = some true) = headed lower message e := by
  rw [Bool.eq_iff_iff, decide_eq_true_eq, sqlOr_true, eqAny_true]
  simp [message_recipient_addresses, headed]

def listedAliases (lower : Text → Text) (account : Account) : List Text := (replyAliases lower account).map Alias.email

/-- The alias that both sides pick. -/
def picked (lower : Text → Text) (account : Account) (message : Message) : Option Text :=
  ((listedAliases lower account).find? (deliveredTo lower message)).or ((listedAliases lower account).find? (headed lower message))

theorem mem_listedAliases (hnode : account.mailNode = false) (h : e ∈ listedAliases lower account) :
    e ≠ [] ∧ ∃ b ∈ account.aliases, lower b.email = e := by
  obtain ⟨a, ha, rfl⟩ := List.mem_map.mp h
  rw [replyAliases, hnode] at ha
  obtain ⟨hne, -, hb⟩ := mem_replyAliasesFrom ha
  exact ⟨hne, hb⟩

theorem find_listedAliases {p : Text → Bool} (hnode : account.mailNode = false) :
    ((account.aliases.filter fun a => lower a.email ≠ lower account.emailAddress).find? fun a => lower a.email ≠ [] && p (lower a.email)).map
        (fun a => lower a.email) =
      (listedAliases lower account).find? p := by
  have hfind := @find_replyAliases lower [lower account.emailAddress] account.aliases (fun e => e ≠ [] && p e) (lower account.emailAddress)
    (by simp) (by simp) (by simp)
  have hreply : (replyAliasesFrom lower [lower account.emailAddress] account.aliases).map Alias.email = listedAliases lower account := by
    rw [listedAliases, replyAliases, hnode]
    rfl
  rw [hreply] at hfind
  exact hfind.trans (List.find?_congr fun e he => by simp [(mem_listedAliases hnode he).1])

theorem matchReplyAlias_eq (hlower : LowerCase lower) (hnode : account.mailNode = false) :
    (matchReplyAlias lower account message).map (fun a => lower a.email) = picked lower account message := by
  simp only [matchReplyAlias, hnode, Bool.false_eq_true, if_false, contains_delivered, headed_pill hlower, picked]
  rw [← find_listedAliases hnode, ← find_listedAliases hnode]
  cases (account.aliases.filter fun a => lower a.email ≠ lower account.emailAddress).find? fun a =>
    lower a.email ≠ [] && deliveredTo lower message (lower a.email) <;> rfl

/-- The addresses of the mailbox, as the server has them. -/
def ownAddresses (lower : Text → Text) (account : Account) : List Text :=
  ((account.emailAddress :: account.aliases.map Alias.email).map lower).dedup

def sender (lower : Text → Text) (message : Message) : Text := (message.fromEmail.map lower).getD []

/-- One of the recipients is an address of the mailbox, for the pill. -/
def toItself (lower : Text → Text) (account : Account) (message : Message) : Bool := (recipients lower message).any (isOwnAddress lower account)

/-- One of the recipients is an address of the mailbox, for the server. -/
def toOwn (lower : Text → Text) (account : Account) (message : Message) : Bool :=
  overlaps (message_recipient_addresses lower message.toAddresses message.ccAddresses) (ownAddresses lower account) ||
    overlaps ((message_delivery_addresses lower message.deliveryAddresses).map some) (ownAddresses lower account)

theorem pill_iff (hlower : LowerCase lower) (hnode : account.mailNode = false) (hsent : isSentFolder message.folder account.folderMappings folderList = false)
    (hdraft : isDraftFolder lower message.folder account.folderMappings = false) {address : Text} :
    (∃ pill, recipientAliasFor lower message account folderList = some pill ∧ pill.active = true ∧ lower pill.address = address) ↔
      (isOwnAddress lower account (trimLower lower message.fromEmail) = true → toItself lower account message = true) ∧
        picked lower account message = some address := by
  have hbanner : (mailboxBanner lower message account folderList).direction = .incoming ↔
      (isOwnAddress lower account (trimLower lower message.fromEmail) = true → toItself lower account message = true) := by
    simp only [mailboxBanner, hsent, Bool.false_eq_true, if_false]
    cases isOwnAddress lower account (trimLower lower message.fromEmail) with
    | false => simp
    | true =>
      simp only [toItself, Bool.not_true, Bool.false_eq_true, if_false, true_imp_iff]
      split
      next h => simp [h]
      next h => simp [h]
  have hmatch := @matchReplyAlias_eq lower account message hlower hnode
  simp only [recipientAliasFor, hnode, hdraft, Bool.false_eq_true, if_false]
  rw [← hbanner, ← hmatch]
  by_cases hin : (mailboxBanner lower message account folderList).direction = .incoming
  · simp only [hin, ne_eq, not_true_eq_false, if_false, true_and]
    cases matchReplyAlias lower account message with
    | some a => simp
    | none =>
      simp only [Option.map_none, reduceCtorEq, iff_false]
      rintro ⟨pill, hpill, hactive, -⟩
      simp only [inactivePill] at hpill
      split at hpill
      · cases hpill
      · obtain ⟨_, -, rfl⟩ := Option.map_eq_some_iff.mp hpill
        cases hactive
  · simp [hin]

theorem listedUnder_eq (henabled : account.enabled = true) (hnode : account.mailNode = false) :
    listedUnder lower account message =
      if (ownAddresses lower account).contains (sender lower message) && !toOwn lower account message then none
      else picked lower account message := by
  have hserver : message_reply_alias lower message (listedAliases lower account) (ownAddresses lower account) =
      if (ownAddresses lower account).contains (sender lower message) && !toOwn lower account message then none
      else picked lower account message := by
    simp only [message_reply_alias, delivered_server, headed_server]
    rfl
  simp only [listedUnder, loadAliasMailbox, henabled, hnode, Bool.not_false, Bool.and_self, if_true]
  split
  next hnone =>
    have hempty : listedAliases lower account = [] := by rw [listedAliases, hnone]; rfl
    simp [picked, hempty]
  next => exact hserver

theorem trim_lower (hlower : LowerCase lower) {t : Text} (h : trim t = t) : trim (lower t) = lower t := by rw [← hlower.trim, h]

/-- A trimmed address that is an alias's own lower-cased one is the mailbox's for the pill too. -/
theorem isOwnAddress_of_alias (hlower : LowerCase lower) (hne : e ≠ []) (htrim : trim e = e) (h : ∃ b ∈ account.aliases, lower b.email = e) :
    isOwnAddress lower account e = true := by
  obtain ⟨b, hb, rfl⟩ := h
  have hsame : trimLower lower (some b.email) = lower b.email := by rw [trimLower, Option.getD_some, hlower.trim, htrim]
  simp only [isOwnAddress, Bool.and_eq_true, Bool.or_eq_true, decide_eq_true_eq]
  exact ⟨hne, .inr (List.contains_iff_mem.mpr (List.mem_map.mpr ⟨b, hb, hsame⟩))⟩

theorem mem_ownAddresses (h : ∃ b ∈ account.aliases, lower b.email = e) : e ∈ ownAddresses lower account := by
  obtain ⟨b, hb, rfl⟩ := h
  rw [ownAddresses, List.mem_dedup]
  exact List.mem_map_of_mem (List.mem_cons_of_mem _ (List.mem_map_of_mem hb))

theorem trimLower_sender (hlower : LowerCase lower) (htrimmed : message.Trimmed) : trimLower lower message.fromEmail = sender lower message := by
  cases hsender : message.fromEmail with
  | none => simp [trimLower, sender, hsender, trim, (hlower.eq_nil []).mpr rfl]
  | some t => simp [trimLower, sender, hsender, htrimmed.sender t hsender]

theorem trim_sender (hlower : LowerCase lower) (htrimmed : message.Trimmed) : trim (sender lower message) = sender lower message := by
  cases hsender : message.fromEmail with
  | none => simp [sender, hsender, trim]
  | some t =>
    simp only [sender, hsender, Option.map_some, Option.getD_some]
    exact trim_lower hlower (htrimmed.sender t hsender)

/-- An address that the letter was delivered to, or that its To or Cc names, is a recipient for both sides. -/
theorem recipient_spec (hlower : LowerCase lower) (htrimmed : message.Trimmed)
    (h : deliveredTo lower message e = true ∨ ((message.toAddresses ++ message.ccAddresses).map fun r => r.email.map lower).contains (some e) = true) :
    e ∈ recipients lower message ∧ trim e = e ∧
      (some e ∈ message_recipient_addresses lower message.toAddresses message.ccAddresses ∨
        some e ∈ (message_delivery_addresses lower message.deliveryAddresses).map some) := by
  obtain h | h := h
  · obtain ⟨t, ht, rfl⟩ := List.mem_map.mp (List.contains_iff_mem.mp h)
    have htrim := htrimmed.delivered t ht
    refine ⟨?_, trim_lower hlower htrim, .inr ?_⟩
    · refine List.mem_append_right _ (List.mem_map.mpr ⟨t, ht, ?_⟩)
      rw [trimLower, Option.getD_some, htrim]
    · exact List.mem_map_of_mem (List.mem_dedup.mpr (List.mem_map_of_mem ht))
  · obtain ⟨r, hr, hemail⟩ := List.mem_map.mp (List.contains_iff_mem.mp h)
    obtain ⟨t, ht, rfl⟩ := Option.map_eq_some_iff.mp hemail
    have htrim := htrimmed.addressed r hr t ht
    refine ⟨?_, trim_lower hlower htrim, .inl ?_⟩
    · refine List.mem_append_left _ (List.mem_map.mpr ⟨r, hr, ?_⟩)
      rw [trimLower, ht, Option.getD_some, htrim]
    · exact List.mem_dedup.mpr (List.mem_map.mpr ⟨r, hr, hemail⟩)

/-- A listed alias among the recipients makes the letter one to the mailbox itself on both sides. -/
theorem toItself_of_alias (hlower : LowerCase lower) (htrimmed : message.Trimmed) (hnode : account.mailNode = false)
    (he : e ∈ listedAliases lower account)
    (h : deliveredTo lower message e = true ∨ ((message.toAddresses ++ message.ccAddresses).map fun r => r.email.map lower).contains (some e) = true) :
    toItself lower account message = true ∧ toOwn lower account message = true := by
  obtain ⟨hne, halias⟩ := mem_listedAliases hnode he
  obtain ⟨hrecipient, htrim, hserver⟩ := recipient_spec hlower htrimmed h
  refine ⟨List.any_eq_true.mpr ⟨e, hrecipient, isOwnAddress_of_alias hlower hne htrim halias⟩, ?_⟩
  have hown := mem_ownAddresses halias
  simp only [toOwn, overlaps, Bool.or_eq_true, List.any_eq_true, List.contains_iff_mem]
  exact hserver.imp (fun hmem => ⟨e, hown, hmem⟩) fun hmem => ⟨e, hown, hmem⟩

/-! ## The two sides -/

/-- The pill and the server name the same alias, and the indexes find what the server lists. -/
structure Agrees (lower : Text → Text) (account : Account) (message : Message) (folderList : List Folder) : Prop where
  pill : ∀ address, (∃ pill, recipientAliasFor lower message account folderList = some pill ∧ pill.active = true ∧ lower pill.address = address) ↔
    listedUnder lower account message = some address
  index : ∀ address, listedUnder lower account message = some address → indexCondition lower message address = true

theorem picked_some (h : picked lower account message = some e) :
    e ∈ listedAliases lower account ∧ (deliveredTo lower message e = true ∨ headed lower message e = true) := by
  obtain h | ⟨-, h⟩ := Option.or_eq_some_iff.mp h
  · exact ⟨List.mem_of_find?_eq_some h, .inl (List.find?_some h)⟩
  · exact ⟨List.mem_of_find?_eq_some h, .inr (List.find?_some h)⟩

theorem indexCondition_of_picked (hnode : account.mailNode = false) (h : picked lower account message = some e) :
    indexCondition lower message e = true := by
  obtain ⟨hlisted, htakes⟩ := picked_some h
  have hne := (mem_listedAliases hnode hlisted).1
  simp only [indexCondition, Bool.or_eq_true, List.contains_iff_mem, decide_eq_true_eq]
  obtain hdelivered | hheaded := htakes
  · exact .inl (.inl (List.mem_dedup.mpr (List.contains_iff_mem.mp hdelivered)))
  · simp only [headed, Bool.or_eq_true, decide_eq_true_eq] at hheaded
    obtain hnamed | hsender := hheaded
    · exact .inl (.inr (List.mem_dedup.mpr (List.contains_iff_mem.mp hnamed)))
    · refine .inr ?_
      cases hfrom : message.fromEmail.map lower with
      | none => rw [hfrom] at hsender; exact absurd hsender hne
      | some t => rw [hfrom] at hsender; exact congrArg some hsender.symm

theorem picked_ne_none (h : sender lower message ∈ listedAliases lower account) : picked lower account message ≠ none := by
  intro hnone
  obtain ⟨-, hnot⟩ := Option.or_eq_none_iff.mp hnone
  have := List.find?_eq_none.mp hnot _ h
  simp [headed, sender] at this

/-- For every mailbox off the node and every letter, the pill and the server agree exactly when the letter is not from an alias's address,
or whether it is to the mailbox itself does not depend on trimming the stored addresses. -/
theorem alias_inbox (hlower : LowerCase lower) (henabled : account.enabled = true) (hnode : account.mailNode = false)
    (hsent : isSentFolder message.folder account.folderMappings folderList = false)
    (hdraft : isDraftFolder lower message.folder account.folderMappings = false) (htrimmed : message.Trimmed) :
    Agrees lower account message folderList ↔
      (sender lower message ∈ listedAliases lower account → toItself lower account message = toOwn lower account message) := by
  have hpill := @pill_iff lower account message folderList hlower hnode hsent hdraft
  have hlisted := @listedUnder_eq lower account message henabled hnode
  rw [trimLower_sender hlower htrimmed] at hpill
  constructor
  · intro h hsender
    obtain ⟨hne, halias⟩ := mem_listedAliases hnode hsender
    have hown : isOwnAddress lower account (sender lower message) = true :=
      isOwnAddress_of_alias hlower hne (trim_sender hlower htrimmed) halias
    have hmem : (ownAddresses lower account).contains (sender lower message) = true := List.contains_iff_mem.mpr (mem_ownAddresses halias)
    obtain ⟨address, hpicked⟩ := Option.ne_none_iff_exists'.mp (picked_ne_none hsender)
    have hiff := (@hpill address).symm.trans (h.pill address)
    rw [hlisted, hmem, hown, hpicked] at hiff
    cases hitself : toItself lower account message <;> cases hserver : toOwn lower account message <;> simp [hitself, hserver] at hiff ⊢
  · intro hsame
    have hboth : ∀ address, picked lower account message = some address →
        ((isOwnAddress lower account (sender lower message) = true → toItself lower account message = true) ↔
          ¬((ownAddresses lower account).contains (sender lower message) && !toOwn lower account message) = true) := fun address hpicked => by
      obtain ⟨hmem, htakes⟩ := picked_some hpicked
      by_cases hrecipient : deliveredTo lower message address = true ∨
          ((message.toAddresses ++ message.ccAddresses).map fun r => r.email.map lower).contains (some address) = true
      · obtain ⟨hitself, hserver⟩ := toItself_of_alias hlower htrimmed hnode hmem hrecipient
        simp [hitself, hserver]
      · -- the alias is picked as the sender's
        have hsender : address = sender lower message := by
          obtain ⟨hnot, hnamed⟩ := not_or.mp hrecipient
          have hheaded := htakes.resolve_left hnot
          simp only [headed, Bool.or_eq_true, decide_eq_true_eq] at hheaded
          exact hheaded.resolve_left hnamed
        subst hsender
        obtain ⟨hne, halias⟩ := mem_listedAliases hnode hmem
        have hown : isOwnAddress lower account (sender lower message) = true :=
          isOwnAddress_of_alias hlower hne (trim_sender hlower htrimmed) halias
        have hcontains : (ownAddresses lower account).contains (sender lower message) = true := List.contains_iff_mem.mpr (mem_ownAddresses halias)
        rw [hown, hcontains, hsame hmem]
        simp
    refine ⟨fun address => hpill.trans ?_, fun address hunder => ?_⟩
    · rw [hlisted]
      constructor
      · rintro ⟨hin, hpicked⟩
        rw [if_neg ((hboth address hpicked).mp hin), hpicked]
      · intro hunder
        split at hunder
        next => cases hunder
        next hnot => exact ⟨(hboth address hunder).mpr hnot, hunder⟩
    · rw [hlisted] at hunder
      split at hunder
      next => cases hunder
      next => exact indexCondition_of_picked hnode hunder

namespace Sample

/-- A mailbox of two aliases, the first one as it was stored. -/
def desk (first : String) : Account :=
  { id := 0, emailAddress := "desk@x".toList, enabled := true, mailNode := false, aliases := [⟨1, first.toList⟩, ⟨2, "bob@x".toList⟩] }

/-- Bob writes to Anna. -/
def letter : Message :=
  { folder := "INBOX".toList, fromEmail := some "bob@x".toList, deliveryAddresses := [], toAddresses := [⟨some "anna@x".toList⟩], ccAddresses := [] }

theorem lowerCase_id : LowerCase id := ⟨fun _ => Iff.rfl, fun _ => rfl⟩

theorem letter_trimmed : letter.Trimmed where
  sender t h := by cases h; decide
  delivered t h := by cases h
  addressed r h t ht := by
    obtain rfl := List.mem_singleton.mp h
    cases ht
    decide

end Sample

/-- Both sides name Bob when Anna's address is stored as it is. -/
theorem alias_inbox_plain : Agrees id (Sample.desk "anna@x") Sample.letter [] :=
  (alias_inbox Sample.lowerCase_id rfl rfl rfl (by decide) Sample.letter_trimmed).mpr fun _ => by decide

/-- Stored with a blank before it, Anna's address is the mailbox's for the pill, which names Bob, and not for the server. -/
theorem not_alias_inbox : ¬Agrees id (Sample.desk " anna@x") Sample.letter [] := by
  intro h
  have hpill : recipientAliasFor id Sample.letter (Sample.desk " anna@x") [] = some ⟨"bob@x".toList, true⟩ := by decide
  have hunlisted : listedUnder id (Sample.desk " anna@x") Sample.letter = none := by decide
  have hlisted := (h.pill "bob@x".toList).mp ⟨_, hpill, rfl, rfl⟩
  rw [hunlisted] at hlisted
  cases hlisted

end MailExpert.AliasInbox
