import MailExpert.Lib.Prog

/-!
# What a domain's sync run asks and keeps

The tenant, the node and the database are a world that answers calls (`Call`, `Call.Answer`). What they answer is
taken as the code reads it: trimmed and lower case, `smtp:` taken off, an address split at its last `@`.
`Run.M` is the monad of a run: it asks the world, keeps its outcome (`Out`) and what the mirror has done
(`MirrorWork`) also when it throws, and throws a `Fault`.
-/

namespace MailExpert.TenantDomains

/-- `DOMAIN_STATES`. -/
inductive DomainState
  | nodeCreated | nodeConfigured | dnsOk | tenantVerified | internalRelay | connectorReady | ready | authoritative
  deriving DecidableEq, Repr

/-- `at`. -/
def DomainState.index : DomainState → Nat
  | nodeCreated => 0
  | nodeConfigured => 1
  | dnsOk => 2
  | tenantVerified => 3
  | internalRelay => 4
  | connectorReady => 5
  | ready => 6
  | authoritative => 7

def reached (state step : DomainState) : Bool := step.index ≤ state.index

/-- `MIRRORED_STATES`. -/
def mirroredStates : List DomainState := [.internalRelay, .connectorReady, .ready, .authoritative]

inductive DomainType
  | authoritative | internalRelay | other
  deriving DecidableEq, Repr

/-- `<name>@<domain>`. A catch-all has no name. -/
structure Address where
  name : String
  domain : String
  deriving DecidableEq, Repr

def Address.text (a : Address) : String := a.name ++ "@" ++ a.domain

inductive Code
  | exoThrottled | graphThrottled | exoNotFound | exoExists | addressTaken | other (text : String)
  deriving DecidableEq, Repr

/-- What a call throws: a `TenantError`, or any other error. -/
structure Fault where
  tenant : Bool
  code : Code
  message : String
  status : Option Nat
  retryAfterMs : Option Nat
  deriving DecidableEq, Repr

/-- `rethrowThrottled` makes these a `Throttled`, which nothing but the run's own end takes. -/
def Fault.throttles (e : Fault) : Bool := e.tenant && (e.code == .exoThrottled || e.code == .graphThrottled)

/-- `isTenant`: without codes, any `TenantError`. -/
def Fault.isTenant (e : Fault) (codes : List Code) : Bool := e.tenant && (codes.isEmpty || codes.contains e.code)

def Fault.graphStatus (e : Fault) (statuses : List Nat) : Bool := e.tenant && e.status.any statuses.contains

structure Failure where
  code : Code
  message : String
  retryAfterMs : Option Nat
  deriving DecidableEq, Repr

def failureOf (e : Fault) : Failure :=
  if e.tenant then { code := e.code, message := String.ofList (e.message.toList.take 300), retryAfterMs := e.retryAfterMs }
  else { code := .other "tenant_failed", message := "The tenant step failed; see the server log", retryAfterMs := none }

/-! ## What the world answers -/

structure TenantDomain where
  isVerified : Bool
  supportedServices : List String
  deriving DecidableEq, Repr

/-- A domain as `Get-AcceptedDomain` shows it. -/
structure AcceptedDomain where
  domainType : Option DomainType
  deriving DecidableEq, Repr

structure OutboundConnector where
  name : Option String
  identity : Option String
  guid : Option String
  onPremises : Bool
  enabled : Bool
  allAcceptedDomains : Bool
  recipientDomains : List String
  deriving DecidableEq, Repr

structure DkimConfig where
  enabled : Bool
  status : Option String
  selector1Cname : Option String
  selector2Cname : Option String
  deriving DecidableEq, Repr

structure Recipient where
  mailContact : Bool
  primary : Option Address
  emailAddresses : List Address
  external : Option Address
  hidden : Bool
  deriving DecidableEq, Repr

/-- A mailbox of the node; `state` 0 takes no mail. -/
structure NodeMailbox where
  email : Address
  state : Nat
  deriving DecidableEq, Repr

structure NodeAlias where
  address : Address
  active : Bool
  deriving DecidableEq, Repr

inductive NodeView
  | unread (code : Code) (message : Option String)
  | view (mailboxes : List NodeMailbox) (aliases : List NodeAlias)
  deriving DecidableEq, Repr

structure PanelMailbox where
  email : Address
  deleting : Bool
  deriving DecidableEq, Repr

inductive ContactWrite
  | newMailContact (address external : Address)
  | hideMailContact (address : Address)
  | setMailContactExternal (address external : Address)
  | removeMailContact (address : Address)
  deriving DecidableEq, Repr

inductive Call
  | getDomain
  | addDomain
  | getVerificationRecords
  | verifyDomain
  | addEmailService (services : List String)
  | getServiceRecords
  | getAcceptedDomain
  | setAcceptedDomainInternalRelay
  | setAcceptedDomainAuthoritative
  | getOutboundConnectors
  | addOutboundConnectorDomain (connector : String)
  | getDkimSigningConfig
  | newDkimSigningConfig
  | enableDkimSigningConfig
  | getRecipients
  | writeContact (write : ContactWrite)
  | nodeView
  | panelView
  deriving DecidableEq, Repr

/-- What a call answers. The verification records are read for the TXT among them, the service records for the MX
hosts, lowest preference first. -/
def Call.Answer : Call → Type
  | .getDomain | .addDomain | .verifyDomain => Option TenantDomain
  | .getVerificationRecords => Option String
  | .getServiceRecords => List String
  | .getAcceptedDomain => Option AcceptedDomain
  | .getOutboundConnectors => List OutboundConnector
  | .getDkimSigningConfig => Option DkimConfig
  | .getRecipients => List Recipient
  | .nodeView => NodeView
  | .panelView => List PanelMailbox
  | .addEmailService _ | .setAcceptedDomainInternalRelay | .setAcceptedDomainAuthoritative
  | .addOutboundConnectorDomain _ | .newDkimSigningConfig | .enableDkimSigningConfig | .writeContact _ => Unit

abbrev World := Prog.World Call.Answer Fault

abbrev Event := Prog.Event Call.Answer Fault

/-! ## What a run keeps -/

/-- `tenant_sync.graph`. -/
structure GraphPart where
  stamp : Nat
  ok : Option Bool := none
  error : Option Failure := none
  preexisting : Bool := false
  addedAt : Option Nat := none
  present : Bool := false
  verified : Bool := false
  verificationTxt : Option String := none
  verifyError : Option Failure := none
  verifiedAt : Option Nat := none
  email : Bool := false
  mx : List String := []
  deriving DecidableEq, Repr

structure AcceptedPart where
  stamp : Nat
  ok : Option Bool := none
  error : Option Failure := none
  visible : Bool := false
  type : Option DomainType := none
  polls : Nat := 0
  code : Option String := none
  deriving DecidableEq, Repr

structure ConnectorPart where
  stamp : Nat
  ok : Option Bool := none
  error : Option Failure := none
  name : Option String := none
  code : Option String := none
  names : List String := []
  addedAt : Option Nat := none
  deriving DecidableEq, Repr

structure DkimPart where
  stamp : Nat
  ok : Option Bool := none
  error : Option Failure := none
  code : Option String := none
  enabled : Bool := false
  status : Option String := none
  selector1Cname : Option String := none
  selector2Cname : Option String := none
  enableError : Option Failure := none
  deriving DecidableEq, Repr

structure FailedWrite where
  address : Address
  write : ContactWrite
  failure : Failure
  deriving DecidableEq, Repr

structure MirrorPart where
  stamp : Nat
  ok : Option Bool := none
  error : Option Failure := none
  complete : Bool := false
  desired : Nat := 0
  present : Nat := 0
  created : List Address := []
  retargeted : List Address := []
  removed : List Address := []
  failed : List FailedWrite := []
  missing : List Address := []
  extra : List Address := []
  heldAliasContacts : List Address := []
  conflicts : List Address := []
  catchAll : Option Address := none
  suspicious : Bool := false
  nodeAliases : List Address := []
  nodeOnly : List Address := []
  panelOnly : List Address := []
  variantB : Bool := false
  left : Nat := 0
  deriving DecidableEq, Repr

structure AuthoritativePart where
  stamp : Nat
  ok : Option Bool := none
  error : Option Failure := none
  code : Option String := none
  held : Bool := false
  mirrorComplete : Bool := false
  deriving DecidableEq, Repr

/-- `tenant_sync`. -/
structure Sync where
  stamp : Nat
  ok : Bool := true
  graph : Option GraphPart := none
  acceptedDomain : Option AcceptedPart := none
  dkim : Option DkimPart := none
  connector : Option ConnectorPart := none
  mirror : Option MirrorPart := none
  authoritative : Option AuthoritativePart := none
  throttled : Option (Code × Option Nat) := none
  deriving DecidableEq, Repr

/-- No part says it failed. -/
def Sync.allOk (sync : Sync) : Bool :=
  sync.graph.all (·.ok != some false) && sync.acceptedDomain.all (·.ok != some false) &&
    sync.dkim.all (·.ok != some false) && sync.connector.all (·.ok != some false) &&
    sync.mirror.all (·.ok != some false) && sync.authoritative.all (·.ok != some false)

/-- The values the domain must publish. -/
structure TenantValues where
  verificationTxt : Option String := none
  dkimSelector1Cname : Option String := none
  dkimSelector2Cname : Option String := none
  deriving DecidableEq, Repr

/-- A row of `mail_node_domains`, as a run reads and writes it. -/
structure Row where
  state : DomainState
  steps : List (DomainState × Nat) := []
  tenantSync : Option Sync := none
  dkimEop : Option Bool := none
  holdInternalRelay : Bool := true
  internalRelayApprovedAt : Option Nat := none
  acceptedDomainType : Option DomainType := none
  aliasContactsApprovedAt : Option Nat := none
  tenant : TenantValues := {}
  tenantByHand : Bool := false
  expectedMx : Option (List String) := none
  deriving DecidableEq, Repr

structure Settings where
  dkimEop : Bool
  outboundConnector : Option String
  dbebExternalDomain : Option String
  deriving DecidableEq, Repr

structure Run where
  domain : String
  row : Row
  settings : Settings
  stamp : Nat
  deriving DecidableEq, Repr

def Run.previousGraph (run : Run) : Option GraphPart := run.row.tenantSync.bind (·.graph)

/-- The journal entry of a mirror that wrote. -/
structure RecipientsSynced where
  created : Nat
  removed : Nat
  retargeted : Nat
  deriving DecidableEq, Repr

/-- What a run comes to. -/
structure Out where
  state : DomainState
  steps : List (DomainState × Nat) := []
  sync : Sync
  tenant : TenantValues := {}
  expectedMx : Option (List String) := none
  acceptedType : Option DomainType := none
  followUpMs : Option Nat := none
  throttled : Option (Code × Option Nat) := none
  presentAddresses : Option (List Address) := none
  panelAddresses : Option (List Address) := none
  audit : List RecipientsSynced := []
  deriving DecidableEq, Repr

def Out.advance (out : Out) (stamp : Nat) (next : DomainState) : Out :=
  { out with steps := out.steps ++ [(next, stamp)], state := next }

@[simp] theorem Out.advance_state {out : Out} {stamp : Nat} {next : DomainState} :
    (out.advance stamp next).state = next := rfl

def Out.followUp (out : Out) (ms : Nat) : Out :=
  { out with followUpMs := some (out.followUpMs.elim ms (min · ms)) }

def Out.start (run : Run) : Out := { state := run.row.state, sync := { stamp := run.stamp } }

/-- `CONTACT_BATCH`. -/
def contactBatch : Nat := 25

/-- What the mirror has done so far in a run. -/
structure MirrorWork where
  budget : Nat := contactBatch
  created : List Address := []
  retargeted : List Address := []
  removed : List Address := []
  failed : List FailedWrite := []
  unconfirmed : List Address := []
  attempted : List ContactWrite := []
  present : List Address := []
  deriving DecidableEq, Repr

structure Own where
  out : Out
  work : MirrorWork := {}
  deriving DecidableEq, Repr

abbrev Run.State := Prog.Asking Call.Answer Fault Own

abbrev Run.M := Prog Run.State Fault

def outcome : Run.M Out := Prog.gets (·.own.out)

def setOut (g : Out → Out) : Run.M Unit := Prog.change fun s => { s with own := { s.own with out := g s.own.out } }

def worked : Run.M MirrorWork := Prog.gets (·.own.work)

def setWork (g : MirrorWork → MirrorWork) : Run.M Unit :=
  Prog.change fun s => { s with own := { s.own with work := g s.own.work } }

end MailExpert.TenantDomains
