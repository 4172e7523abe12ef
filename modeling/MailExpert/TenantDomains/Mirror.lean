import MailExpert.TenantDomains.Types

/-!
# What the recipient mirror must change

`planMirror` compares what the node takes mail for with the panel's rows and the tenant's recipients.
-/

namespace MailExpert.TenantDomains

def addressesOf (recipient : Recipient) : List Address := (recipient.primary.toList ++ recipient.emailAddresses).dedup

/-- The external address of a contact: the address itself, or its name at the external domain. -/
def externalOf (address : Address) (externalDomain : Option String) : Address :=
  externalDomain.elim address fun domain => { address with domain := domain }

/-- `[...new Set(addresses)].sort()`. -/
def sorted (addresses : List Address) : List Address := addresses.dedup.insertionSort (·.text ≤ ·.text)

@[simp] theorem mem_sorted {addresses : List Address} {a : Address} : a ∈ sorted addresses ↔ a ∈ addresses := by
  simp [sorted]

structure Plan where
  desired : List Address
  create : List Address
  retarget : List Address
  remove : List Address
  hide : List Address
  present : List Address
  conflicts : List Address
  catchAll : Option Address
  nodeAliases : List Address
  nodeOnly : List Address
  panelOnly : List Address
  suspicious : Bool
  deriving DecidableEq, Repr

/-- What a plan is made from. -/
structure Reads where
  mailboxes : List NodeMailbox
  aliases : List NodeAlias
  panel : List PanelMailbox
  recipients : List Recipient
  deriving DecidableEq, Repr

def Recipient.contactOf (r : Recipient) (domain : String) : Bool :=
  r.mailContact && r.primary.any (·.domain == domain)

def contactAt (domain : String) (recipients : List Recipient) (address : Address) : Option Recipient :=
  (recipients.filter fun r => r.contactOf domain && r.primary == some address).getLast?

def planMirror (domain : String) (externalDomain : Option String) (reads : Reads) : Plan :=
  let deleting := (reads.panel.filter (·.deleting)).map (·.email)
  let desired := sorted <| (reads.mailboxes.filter fun m =>
    m.state != 0 && m.email.domain == domain && !deleting.contains m.email).map (·.email)
  let contacts := sorted <| (reads.recipients.filter (·.contactOf domain)).filterMap (·.primary)
  let taken := (reads.recipients.filter fun r => !r.contactOf domain).flatMap fun r =>
    (addressesOf r).filter (·.domain == domain)
  let found := desired.filter fun a => (contactAt domain reads.recipients a).isSome
  let inPlace (a : Address) := (contactAt domain reads.recipients a).any fun contact =>
    contact.external == some (externalOf a externalDomain)
  let suspicious := reads.mailboxes.isEmpty && (reads.panel.any (!·.deleting) || !contacts.isEmpty)
  let onNode := (reads.mailboxes.map (·.email)).dedup
  let inPanel := (reads.panel.map (·.email)).dedup
  { desired := desired
    create := desired.filter fun a => (contactAt domain reads.recipients a).isNone && !taken.contains a
    retarget := found.filter (!inPlace ·)
    remove := if suspicious then [] else contacts.filter (!desired.contains ·)
    hide := found.filter fun a => (contactAt domain reads.recipients a).any (!·.hidden)
    present := found.filter inPlace
    conflicts := desired.filter taken.contains
    catchAll := (reads.aliases.find? fun a => a.active && a.address.name.isEmpty).map (·.address)
    nodeAliases := sorted <| (reads.aliases.filter fun a =>
      a.active && !a.address.name.isEmpty && a.address.domain == domain).map (·.address)
    nodeOnly := sorted (onNode.filter (!inPanel.contains ·))
    panelOnly := sorted (inPanel.filter (!onNode.contains ·))
    suspicious := suspicious }

/-- The contacts a run leaves to an administrator: on an authoritative domain, those of the node's aliases. -/
def heldAliasContacts (authoritative : Bool) (approvedAt : Option Nat) (plan : Plan) : List Address :=
  if authoritative && approvedAt.isNone then plan.remove.filter plan.nodeAliases.contains else []

/-- Nothing is left to make, move or remove, but for the contacts in `held`. -/
def Plan.complete (plan : Plan) (held : List Address) : Bool :=
  plan.create.isEmpty && plan.retarget.isEmpty && (plan.remove.filter (!held.contains ·)).isEmpty &&
    plan.catchAll.isNone && !plan.suspicious

end MailExpert.TenantDomains
