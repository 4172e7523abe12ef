import Mathlib

/-!
# The alias of an INBOX letter

One rule, written twice. The list's pill is the frontend's (`utils/mailboxBanner.js` `recipientAliasFor` with `utils/replyAlias.js`
`matchReplyAlias`); the alias's Inbox is SQL (`message_reply_alias` of migration 0101 over the lists of `services/aliasMailbox.js`). A letter's
`delivery_addresses` is an array of strings here, and its To and Cc are arrays of objects whose `email` may be missing or null (`none`), so
`parseAddressListField` hands them on. `lower` is `toLowerCase` on one side and `lower` on the other.
-/

namespace MailExpert.AliasInbox

abbrev Text := List Char

/-- White space and line ends, as `String.prototype.trim` takes them. -/
def isSpace (c : Char) : Bool :=
  let n := c.toNat
  (9 ≤ n && n ≤ 13) || n = 0x20 || n = 0xA0 || n = 0x1680 || (0x2000 ≤ n && n ≤ 0x200A) || n = 0x2028 || n = 0x2029 || n = 0x202F ||
    n = 0x205F || n = 0x3000 || n = 0xFEFF

def trim (t : Text) : Text := (t.dropWhile isSpace).rdropWhile isSpace

structure Alias where
  id : Nat
  email : Text
  deriving DecidableEq

/-- The folders of `folder_mappings` that the rule reads. -/
structure FolderMappings where
  sent : Option Text := none
  drafts : Option Text := none

/-- A mailbox with its aliases, in the order of `created_at`, `id`. -/
structure Account where
  id : Nat
  emailAddress : Text
  enabled : Bool
  mailNode : Bool
  folderMappings : FolderMappings := {}
  aliases : List Alias

structure Folder where
  path : Text
  specialUse : Option Text

/-- An entry of To or Cc. -/
structure Recipient where
  email : Option Text

structure Message where
  folder : Text
  fromEmail : Option Text
  deliveryAddresses : List Text
  toAddresses : List Recipient
  ccAddresses : List Recipient

variable (lower : Text → Text)

/-! ## The pill -/

/-- `lower` of `mailboxBanner.js` -/
def trimLower (value : Option Text) : Text := lower (trim (value.getD []))

def isSentFolder (folder : Text) (mappings : FolderMappings) (folderList : List Folder) : Bool :=
  if folder = [] then false
  else
    match mappings.sent with
    | some (c :: sent) => folder = c :: sent
    | _ => (folderList.find? fun f => f.path = folder).any fun f => f.specialUse = some "\\Sent".toList

def isDraftFolder (folder : Text) (mappings : FolderMappings) : Bool :=
  if folder = [] then false
  else
    match mappings.drafts with
    | some (c :: drafts) => folder = c :: drafts
    | _ => "draft".toList <:+: lower folder

inductive Direction
  | incoming | outgoing
  deriving DecidableEq

structure Banner where
  direction : Direction
  via : Option Text

/-- `own` and `aliasEmails` of `mailboxBanner`, which trim the addresses as they are stored. -/
def isOwnAddress (account : Account) (email : Text) : Bool :=
  email ≠ [] &&
    (email = trimLower lower (some account.emailAddress) || (account.aliases.map fun a => trimLower lower (some a.email)).contains email)

/-- Who a letter is addressed to, as `mailboxBanner` spells them. -/
def recipients (message : Message) : List Text :=
  (message.toAddresses ++ message.ccAddresses).map (fun r => trimLower lower r.email) ++
    message.deliveryAddresses.map fun e => trimLower lower (some e)

def mailboxBanner (message : Message) (account : Account) (folderList : List Folder) : Banner :=
  if !isOwnAddress lower account (trimLower lower message.fromEmail) then
    let delivered := (message.deliveryAddresses.map fun e => trimLower lower (some e)).filter (· ≠ [])
    ⟨.incoming, delivered.find? (· ≠ trimLower lower (some account.emailAddress))⟩
  else if isSentFolder message.folder account.folderMappings folderList then ⟨.outgoing, none⟩
  else if (recipients lower message).any (isOwnAddress lower account) then ⟨.incoming, none⟩
  else ⟨.outgoing, none⟩

def matchReplyAlias (account : Account) (message : Message) : Option Alias :=
  if account.mailNode then none
  else
    let own := lower account.emailAddress
    let aliases := account.aliases.filter fun a => lower a.email ≠ own
    let delivered := (message.deliveryAddresses.map lower).filter (· ≠ [])
    let headerEmails := ((message.toAddresses ++ message.ccAddresses).filterMap fun r => r.email.map lower).filter (· ≠ [])
    let sender := lower (message.fromEmail.getD [])
    (aliases.find? fun a => delivered.contains (lower a.email)).or
      (aliases.find? fun a => headerEmails.contains (lower a.email) || (sender ≠ [] && sender = lower a.email))

/-- `domainOf`: what follows the last `@`, unless it comes first. -/
def domainOf (email : Text) : Text :=
  let domain := email.rtakeWhile (· ≠ '@')
  if domain.length + 1 < email.length then domain else []

def PUBLIC_MAIL_DOMAINS : List Text :=
  ["gmail.com", "googlemail.com", "outlook.com", "hotmail.com", "live.com", "msn.com", "yahoo.com", "ymail.com", "icloud.com", "me.com",
    "mac.com", "aol.com", "proton.me", "protonmail.com", "pm.me", "gmx.com", "gmx.net", "gmx.de", "web.de", "mail.com", "zoho.com",
    "yandex.ru", "yandex.com", "ya.ru", "mail.ru", "inbox.ru", "list.ru", "bk.ru", "rambler.ru"].map String.toList

structure Pill where
  address : Text
  active : Bool
  deriving DecidableEq

/-- The pill of an address on the mailbox's domain that no alias has. -/
def inactivePill (message : Message) (account : Account) : Option Pill :=
  let own := trimLower lower (some account.emailAddress)
  let domain := domainOf own
  if domain = [] || PUBLIC_MAIL_DOMAINS.contains domain then none
  else
    let addresses := message.deliveryAddresses.map (fun e => trimLower lower (some e)) ++
      (message.toAddresses ++ message.ccAddresses).map fun r => trimLower lower r.email
    (addresses.find? fun email => email ≠ [] && email ≠ own && domainOf email = domain).map fun address => ⟨address, false⟩

def recipientAliasFor (message : Message) (account : Account) (folderList : List Folder) : Option Pill :=
  if account.mailNode then none
  else if isDraftFolder lower message.folder account.folderMappings then none
  else if (mailboxBanner lower message account folderList).direction ≠ .incoming then none
  else
    match matchReplyAlias lower account message with
    | some a => some ⟨a.email, true⟩
    | none => inactivePill lower message account

/-! ## The alias's Inbox

A value of SQL that may be `NULL` is an option; a `WHERE` or a `WHEN` takes the rows of `some true`. -/

def message_delivery_addresses (deliveryAddresses : List Text) : List Text := (deliveryAddresses.map lower).dedup

/-- An entry without an `email` gives the array a `NULL`. -/
def message_recipient_addresses (toAddresses ccAddresses : List Recipient) : List (Option Text) :=
  ((toAddresses ++ ccAddresses).map fun r => r.email.map lower).dedup

/-- `a = ANY(array)` -/
def eqAny (a : Text) (array : List (Option Text)) : Option Bool :=
  if array.contains (some a) then some true else if array.contains none then none else some false

/-- `OR` -/
def sqlOr : Option Bool → Option Bool → Option Bool
  | some true, _ | _, some true => some true
  | some false, some false => some false
  | _, _ => none

/-- `array && addresses`, where a `NULL` overlaps with nothing. -/
def overlaps (array : List (Option Text)) (addresses : List Text) : Bool := addresses.any fun a => array.contains (some a)

def message_reply_alias (message : Message) (aliases ownAddresses : List Text) : Option Text :=
  let delivered := (message_delivery_addresses lower message.deliveryAddresses).map some
  let addressed := message_recipient_addresses lower message.toAddresses message.ccAddresses
  let sender := (message.fromEmail.map lower).getD []
  if ownAddresses.contains sender && !(overlaps addressed ownAddresses || overlaps delivered ownAddresses) then none
  else
    (aliases.find? fun a => eqAny a delivered = some true).or
      (aliases.find? fun a => sqlOr (eqAny a addressed) (some (a = sender)) = some true)

/-- The loop of `replyAliases`, which has seen the addresses `seen`. -/
def replyAliasesFrom : List Text → List Alias → List Alias
  | _, [] => []
  | seen, a :: aliases =>
    let email := lower a.email
    if email = [] ∨ email ∈ seen then replyAliasesFrom seen aliases else ⟨a.id, email⟩ :: replyAliasesFrom (email :: seen) aliases

def replyAliases (account : Account) : List Alias :=
  if account.mailNode then [] else replyAliasesFrom lower [lower account.emailAddress] account.aliases

structure AliasMailbox where
  accountId : Nat
  folderMappings : FolderMappings
  aliases : List Alias
  ownAddresses : List Text

/-- What `loadAliasMailboxes` answers for one mailbox, if anything. -/
def loadAliasMailbox (account : Account) : Option AliasMailbox :=
  if account.enabled && !account.mailNode then
    let aliases := replyAliases lower account
    if aliases = [] then none
    else some ⟨account.id, account.folderMappings, aliases, ((account.emailAddress :: account.aliases.map Alias.email).map lower).dedup⟩
  else none

def listedUnder (account : Account) (message : Message) : Option Text :=
  (loadAliasMailbox lower account).bind fun mailbox => message_reply_alias lower message (mailbox.aliases.map Alias.email) mailbox.ownAddresses

/-- The first part of `aliasInboxCondition`, which the indexes answer. -/
def indexCondition (message : Message) (aliasEmail : Text) : Bool :=
  (message_delivery_addresses lower message.deliveryAddresses).contains aliasEmail ||
    (message_recipient_addresses lower message.toAddresses message.ccAddresses).contains (some aliasEmail) ||
    message.fromEmail.map lower = some aliasEmail

end MailExpert.AliasInbox
