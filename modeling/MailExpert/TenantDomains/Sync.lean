import MailExpert.TenantDomains.Mirror

/-!
# One sync run of a domain

`syncDomain` takes a domain through its tenant steps: `syncGraph`, `syncAccepted`, `syncDkim`, `syncConnector`,
`syncMirror`, `syncAuthoritative`, each reading the tenant first. `persistSync` writes what a run came to.

A throttled call ends the run from wherever it stands. The source turns it into an exception of another class as
soon as it is caught; here `Fault.throttles` tells it apart.
-/

namespace MailExpert.TenantDomains

variable (world : World) (run : Run)

def graphDomain : Run.M (Option TenantDomain) :=
  (Prog.ask world .getDomain).orElse fun e => if e.graphStatus [404] then pure none else Prog.fail e

/-- What stays of the last run's part. -/
def freshPart : GraphPart :=
  { run.previousGraph.getD { stamp := run.stamp } with stamp := run.stamp, error := none, verifyError := none }

/-- The domain, added when the tenant does not show it. A domain found there that no earlier run knew was there
before the panel. -/
def findDomain : Run.M (Option TenantDomain × GraphPart) := do
  let found ← graphDomain world
  if found.isSome then
    pure (found, if run.previousGraph.isNone then { freshPart run with preexisting := true } else freshPart run)
  else
    (do let added ← Prog.ask world .addDomain
        pure (added, { freshPart run with addedAt := some run.stamp })).orElse fun e =>
      if e.throttles then Prog.fail e
      else if e.graphStatus [400, 409, 503, 504] then do
        let again ← graphDomain world
        if again.isSome then pure (again, freshPart run) else Prog.fail e
      else Prog.fail e

def isVerified (found : Option TenantDomain) : Bool := found.any (·.isVerified)

/-- The TXT to publish, and past `dns_ok` the verification itself. -/
def verifyDomain (state : DomainState) (found : Option TenantDomain) (part : GraphPart) :
    Run.M (Option TenantDomain × GraphPart) := do
  let txt : Option String ← Prog.ask world .getVerificationRecords
  setOut fun out => { out with tenant := { out.tenant with verificationTxt := txt <|> out.tenant.verificationTxt } }
  let part := { part with verificationTxt := txt }
  if reached state .dnsOk then
    (do let found ← Prog.ask world .verifyDomain
        pure (found, { part with verified := isVerified found })).orElse fun e =>
      if e.throttles then Prog.fail e
      else if e.graphStatus [400] then
        pure (found, { part with verifyError := some { code := .other "domain_not_verified", message := e.message, retryAfterMs := none } })
      else Prog.fail e
  else pure (found, part)

def serveMail (found : Option TenantDomain) (part : GraphPart) : Run.M GraphPart := do
  let services := found.elim [] (·.supportedServices)
  (if services.contains "Email" then pure () else Prog.ask world (.addEmailService (services ++ ["Email"])))
  let mx : List String ← Prog.ask world .getServiceRecords
  setOut fun out => if mx.isEmpty then out else { out with expectedMx := some mx }
  -- the row a step works on has the outcome's state
  setOut fun out => if out.state = .dnsOk then out.advance run.stamp .tenantVerified else out
  pure { part with verifiedAt := part.verifiedAt <|> some run.stamp, email := true, mx := mx }

def keepGraph (part : GraphPart) : Run.M Unit :=
  setOut fun out => { out with sync := { out.sync with graph := some part } }

def syncGraph : Run.M Bool := do
  let out ← outcome
  let first ← findDomain world run
  let part := { first.2 with present := true, verified := isVerified first.1 }
  let second ← (if part.verified then pure (first.1, part) else verifyDomain world out.state first.1 part)
  if second.2.verified then do
    let part ← serveMail world run second.1 second.2
    keepGraph part
    pure true
  else do
    keepGraph second.2
    pure false

def readAccepted : Run.M (Option AcceptedDomain) :=
  (Prog.ask world .getAcceptedDomain).orElse fun e => if e.isTenant [.exoNotFound] then pure none else Prog.fail e

def acceptedWaitMs (polls : Nat) : Nat := min (10 * 60 * 1000) (60 * 1000 * 2 ^ (polls - 1))

def keepAccepted (part : AcceptedPart) : Run.M Unit :=
  setOut fun out => { out with sync := { out.sync with acceptedDomain := some part } }

/-- The tenant had the domain as Authoritative before the panel knew it, and no administrator approved a change. -/
def heldAuthoritative (out : Out) (type : Option DomainType) : Bool :=
  type == some .authoritative && out.state != .authoritative && out.sync.graph.any (·.preexisting) &&
    run.row.internalRelayApprovedAt.isNone

/-- Never Authoritative before the mirror is complete. -/
def relayDomain : Run.M (Option DomainType) := do
  Prog.ask world .setAcceptedDomainInternalRelay
  let found ← readAccepted world
  pure (found.bind (·.domainType))

/-- What the type read last means for the outcome. -/
def acceptType (type : Option DomainType) : Run.M Unit := do
  setOut fun out => if type = some .internalRelay ∨ type = some .authoritative then { out with acceptedType := type } else out
  setOut fun out => if type = some .internalRelay ∧ out.state = .tenantVerified then out.advance run.stamp .internalRelay else out

def previousPolls : Nat := (run.row.tenantSync.bind (·.acceptedDomain)).elim 0 (·.polls)

def syncAccepted : Run.M (Option DomainType) := do
  let out ← outcome
  let found ← readAccepted world
  if found.isNone then do
    let polls := previousPolls run + 1
    keepAccepted { stamp := run.stamp, polls := polls }
    setOut (·.followUp (acceptedWaitMs polls))
    pure none
  else do
    let type := found.bind (·.domainType)
    if heldAuthoritative run out type then do
      keepAccepted { stamp := run.stamp, visible := true, type := type, ok := some false, code := some "authoritative_in_tenant" }
      setOut fun out => { out with acceptedType := type }
      pure none
    else do
      let type ← (if out.state ≠ .authoritative ∧ type ≠ some .internalRelay then relayDomain world else pure type)
      keepAccepted { stamp := run.stamp, visible := true, type := type }
      acceptType run type
      pure type

def lower (s : String) : String := s.trimAscii.toString.toLower

/-- The outbound connector new domains go to: the one the settings name, else the only enabled on-premises one. -/
def pickOutboundConnector (all : List OutboundConnector) (name : Option String) :
    Except (String × List String) OutboundConnector :=
  match name with
  | some name =>
    match all.find? fun c => c.name.any (lower · == lower name) || c.identity.any (lower · == lower name) with
    | some found => .ok found
    | none => .error ("outbound_connector_not_found", [])
  | none =>
    let onPremises := all.filter fun c => c.onPremises && c.enabled
    match onPremises with
    | [only] => .ok only
    | [] => .error ("outbound_connector_missing", [])
    | many => .error ("outbound_connector_ambiguous", (many.map fun c => c.name.getD "undefined").take 10)

def connectorHas (connector : OutboundConnector) (domain : String) : Bool :=
  connector.allAcceptedDomains || connector.recipientDomains.contains domain

def keepConnector (part : ConnectorPart) : Run.M Unit :=
  setOut fun out => { out with sync := { out.sync with connector := some part } }

/-- The connector after a run added the domain to it, and that it did. -/
def addToConnector (connector : OutboundConnector) (id : String) : Run.M OutboundConnector := do
  Prog.ask world (.addOutboundConnectorDomain id)
  let rows ← Prog.ask world .getOutboundConnectors
  pure ((rows.find? fun c => c.guid == some id).getD connector)

def concludeConnector (name : String) (connector : OutboundConnector) (addedAt : Option Nat) : Run.M Bool := do
  let ok := connectorHas connector run.domain
  keepConnector { stamp := run.stamp, ok := some ok, name := some name, addedAt := addedAt,
                  code := if ok then none else some "connector_domain_missing" }
  setOut fun out => if ok ∧ out.state = .internalRelay then out.advance run.stamp .connectorReady else out
  pure ok

def syncConnector : Run.M Bool := do
  let rows ← Prog.ask world .getOutboundConnectors
  match pickOutboundConnector rows run.settings.outboundConnector with
  | .error (code, names) => do
    keepConnector { stamp := run.stamp, ok := some false, code := some code, names := names }
    pure false
  | .ok connector =>
    let name := (connector.name <|> connector.identity).getD "undefined"
    if connectorHas connector run.domain then concludeConnector run name connector none
    else
      match connector.guid with
      | none => do
        keepConnector { stamp := run.stamp, ok := some false, name := some name, code := some "connector_guid_missing" }
        pure false
      | some id => do
        let connector ← addToConnector world connector id
        concludeConnector run name connector (some run.stamp)

def readDkim : Run.M (Option DkimConfig) :=
  (Prog.ask world .getDkimSigningConfig).orElse fun e => if e.isTenant [.exoNotFound] then pure none else Prog.fail e

def makeDkim : Run.M (Option DkimConfig) := do
  (Prog.ask world .newDkimSigningConfig).orElse fun e => if e.isTenant [.exoExists] then pure () else Prog.fail e
  readDkim world

def enableDkim (config : DkimConfig) : Run.M (DkimConfig × Option Failure) :=
  (do Prog.ask world .enableDkimSigningConfig
      let again ← readDkim world
      pure (again.getD config, none)).orElse fun e =>
    if e.throttles then Prog.fail e else if e.isTenant [] then pure (config, some (failureOf e)) else Prog.fail e

def keepDkim (part : DkimPart) : Run.M Unit := setOut fun out => { out with sync := { out.sync with dkim := some part } }

def syncDkim : Run.M Unit := do
  let first ← readDkim world
  let config ← (if first.isSome then pure first else makeDkim world)
  match config with
  | none => keepDkim { stamp := run.stamp, ok := some false, code := some "dkim_config_missing" }
  | some config => do
    setOut fun out => { out with tenant := { out.tenant with
      dkimSelector1Cname := config.selector1Cname <|> out.tenant.dkimSelector1Cname
      dkimSelector2Cname := config.selector2Cname <|> out.tenant.dkimSelector2Cname } }
    let enabled ← (if config.enabled then pure (config, none) else enableDkim world config)
    keepDkim { stamp := run.stamp, ok := some true, enabled := enabled.1.enabled, status := enabled.1.status,
               selector1Cname := config.selector1Cname, selector2Cname := config.selector2Cname, enableError := enabled.2 }

/-! ## The recipient mirror -/

/-- What a write came to: it was answered, it threw one of the codes the caller takes, or it failed. -/
inductive Written
  | ok | code (code : Code) | failed
  deriving DecidableEq, Repr

def MirrorWork.fail (work : MirrorWork) (f : FailedWrite) : MirrorWork := { work with failed := work.failed ++ [f] }

/-- One write of the mirror. With no codes to take, `isTenant` takes every `TenantError`. -/
def write (w : ContactWrite) (address : Address) (okCodes : List Code) : Run.M Written := do
  setWork fun work => { work with budget := work.budget - 1, attempted := w :: work.attempted }
  (do Prog.ask world (.writeContact w)
      pure Written.ok).orElse fun e =>
    if e.throttles then Prog.fail e
    else if e.isTenant okCodes then pure (.code e.code)
    else if e.isTenant [] then do
      setWork (·.fail ⟨address, w, failureOf e⟩)
      pure .failed
    else Prog.fail e

def ifBudget (m : Run.M Unit) : Run.M Unit := do
  let work ← worked
  if work.budget = 0 then pure () else m

def external (address : Address) : Address := externalOf address run.settings.dbebExternalDomain

def createContact (address : Address) : Run.M Unit := do
  let done ← write world (.newMailContact address (external run address)) address [.exoExists]
  match done with
  | .code _ => setWork fun work => { work with unconfirmed := work.unconfirmed ++ [address] }
  | .failed => pure ()
  | .ok => do
    setWork fun work => { work with created := work.created ++ [address], present := work.present ++ [address] }
    ifBudget do
      let _ ← write world (.hideMailContact address) address []
      pure ()

def retargetContact (address : Address) : Run.M Unit := do
  let done ← write world (.setMailContactExternal address (external run address)) address []
  if done = .failed then pure ()
  else setWork fun work => { work with retargeted := work.retargeted ++ [address], present := work.present ++ [address] }

def removeContact (address : Address) : Run.M Unit := do
  let done ← write world (.removeMailContact address) address [.exoNotFound]
  if done = .failed then pure () else setWork fun work => { work with removed := work.removed ++ [address] }

def hideContact (address : Address) : Run.M Unit := do
  let _ ← write world (.hideMailContact address) address []
  pure ()

/-- A contact that `New-MailContact` said exists: an own one, or an address another recipient holds. -/
def confirmContact (recipients : List Recipient) (address : Address) : Run.M Unit :=
  setWork fun work =>
    if recipients.any fun r => r.mailContact && r.primary == some address then
      { work with created := work.created ++ [address], present := work.present ++ [address] }
    else
      work.fail ⟨address, .newMailContact address (external run address),
        { code := .addressTaken, message := "Another recipient of the tenant holds this address", retryAfterMs := none }⟩

def confirmContacts : Run.M Unit := do
  let work ← worked
  if work.unconfirmed.isEmpty then pure ()
  else do
    let recipients ← Prog.ask world .getRecipients
    Prog.each work.unconfirmed (confirmContact run recipients)

def applyPlan (plan : Plan) (removals : List Address) : Run.M Unit := do
  Prog.each plan.create fun address => ifBudget (createContact world run address)
  Prog.each plan.retarget fun address => ifBudget (retargetContact world run address)
  Prog.each removals fun address => ifBudget (removeContact world address)
  Prog.each plan.hide fun address => ifBudget (hideContact world address)
  confirmContacts world run

def listMax : Nat := 50

/-- How many of the plan's writes the budget, or throttling, kept for later. -/
def leftOver (plan : Plan) (removals : List Address) (work : MirrorWork) : Nat :=
  let made := work.attempted.filterMap fun
    | .newMailContact a _ | .hideMailContact a | .setMailContactExternal a _ => some a
    | .removeMailContact _ => none
  let gone := work.attempted.filterMap fun
    | .removeMailContact a => some a
    | _ => none
  (plan.create.filter (!made.contains ·)).length + (plan.retarget.filter (!made.contains ·)).length +
    (removals.filter (!gone.contains ·)).length

def mirrorPart (plan : Plan) (held removals : List Address) (complete : Bool) (work : MirrorWork) : MirrorPart where
  stamp := run.stamp
  ok := some work.failed.isEmpty
  complete := complete
  desired := plan.desired.length
  present := work.present.dedup.length
  created := work.created.take listMax
  retargeted := work.retargeted.take listMax
  removed := work.removed.take listMax
  failed := work.failed.take listMax
  missing := (plan.desired.filter fun a => !work.present.contains a && !plan.conflicts.contains a).take listMax
  extra := (removals.filter (!work.removed.contains ·)).take listMax
  heldAliasContacts := held.take listMax
  conflicts := plan.conflicts.take listMax
  catchAll := plan.catchAll
  suspicious := plan.suspicious
  nodeAliases := plan.nodeAliases.take listMax
  nodeOnly := plan.nodeOnly.take listMax
  panelOnly := plan.panelOnly.take listMax
  variantB := run.settings.dbebExternalDomain.isSome
  left := leftOver plan removals work

def keepMirror (part : MirrorPart) : Run.M Unit :=
  setOut fun out => { out with sync := { out.sync with mirror := some part } }

/-- What was done stays recorded however the writes ended. -/
def recordMirror (plan : Plan) (panel : List PanelMailbox) (held removals : List Address) (complete : Bool)
    (s : Run.State) : Run.State :=
  let work := s.own.work
  let out := s.own.out
  { s with own := { s.own with out := { out with
      sync := { out.sync with mirror := some (mirrorPart run plan held removals complete work) }
      presentAddresses := some (work.present.dedup ++ plan.conflicts)
      panelAddresses := some (panel.map (·.email))
      audit :=
        if work.created.isEmpty && work.removed.isEmpty && work.retargeted.isEmpty then out.audit
        else out.audit ++ [{ created := work.created.length, removed := work.removed.length, retargeted := work.retargeted.length }] } } }

/-- More of the plan is left than the budget took: on at once. On a domain that is ready, look again soon. -/
def followMirror (out : Out) : Out :=
  let mirror := out.sync.mirror
  if mirror.any fun m => m.left > 0 then out.followUp 2000
  else if mirror.any (fun m => !(m.created.isEmpty && m.removed.isEmpty && m.retargeted.isEmpty)) && out.state == .ready then
    out.followUp (60 * 1000)
  else out

/-- The domain is authoritative by the panel's state, by this run's read or by the last one's. -/
def showsAuthoritative (out : Out) : Bool :=
  out.state == .authoritative || out.acceptedType == some .authoritative ||
    run.row.acceptedDomainType == some .authoritative

/-- The plan's writes, and whether it left nothing to do. -/
def workMirror (plan : Plan) (panel : List PanelMailbox) (held : List Address) : Run.M Bool := do
  let removals := plan.remove.filter (!held.contains ·)
  let complete := plan.complete held
  setWork fun _ => { present := plan.present }
  (applyPlan world run plan removals).andFinally (recordMirror run plan panel held removals complete)
  setOut followMirror
  let work ← worked
  pure (complete && work.failed.isEmpty)

/-- Whether the mirror is complete; nothing when the node was not read. -/
def syncMirror : Run.M (Option Bool) := do
  let out ← outcome
  let node ← Prog.ask world .nodeView
  match node with
  | .unread code message => do
    keepMirror { stamp := run.stamp, ok := some false, error := some { code := code, message := message.getD "", retryAfterMs := none } }
    pure none
  | .view mailboxes aliases => do
    let panel ← Prog.ask world .panelView
    let recipients ← Prog.ask world .getRecipients
    let plan := planMirror run.domain run.settings.dbebExternalDomain
      { mailboxes := mailboxes, aliases := aliases, panel := panel, recipients := recipients }
    let complete ← workMirror world run plan panel
      (heldAliasContacts (showsAuthoritative run out) run.row.aliasContactsApprovedAt plan)
    pure (some complete)

def keepAuthoritative (part : AuthoritativePart) : Run.M Unit :=
  setOut fun out => { out with sync := { out.sync with authoritative := some part } }

/-- The tenant shows the domain and the connector delivers it. -/
def pathOk (out : Out) : Bool :=
  out.sync.acceptedDomain.any (·.visible) && out.sync.connector.any (·.ok == some true)

def concludeAuthoritative (type : Option DomainType) : Run.M Unit := do
  keepAuthoritative { stamp := run.stamp, ok := some (type = some .authoritative) }
  setOut fun out =>
    if type = some .authoritative then
      let out := { out with
        acceptedType := some .authoritative
        sync := { out.sync with acceptedDomain := out.sync.acceptedDomain.map ({ · with type := some .authoritative }) } }
      if out.state = .ready then out.advance run.stamp .authoritative else out
    else out

def syncAuthoritative (mirror : Option Bool) (type : Option DomainType) : Run.M Unit := do
  let out ← outcome
  let lost := out.state = .authoritative ∧ type ≠ some .authoritative
  if mirror ≠ some true ∨ out.sync.mirror.any (!·.failed.isEmpty) ∨ !pathOk out then
    if lost then keepAuthoritative { stamp := run.stamp, ok := some false, code := some "authoritative_lost" } else pure ()
  else if out.state = .ready ∧ run.row.holdInternalRelay then
    keepAuthoritative { stamp := run.stamp, ok := some true, held := true, mirrorComplete := true }
  else if out.state ≠ .ready ∧ ¬lost then pure ()
  else if type ≠ some .authoritative then do
    Prog.ask world .setAcceptedDomainAuthoritative
    let found ← readAccepted world
    concludeAuthoritative run (found.bind (·.domainType))
  else concludeAuthoritative run type

/-- A step: a failure that is no throttling is kept with the step, and the run goes on. -/
def step {α : Type} (keep : Failure → Sync → Sync) (m : Run.M α) : Run.M (Option α) :=
  (do let a ← m
      pure (some a)).orElse fun e =>
    if e.throttles then Prog.fail e
    else do
      setOut fun out => { out with sync := { keep (failureOf e) out.sync with ok := false } }
      pure none

def failGraph (e : Failure) (sync : Sync) : Sync :=
  { sync with graph := some { sync.graph.getD { stamp := run.stamp } with stamp := run.stamp, ok := some false, error := some e } }

def failAccepted (e : Failure) (sync : Sync) : Sync :=
  { sync with acceptedDomain := some { sync.acceptedDomain.getD { stamp := run.stamp } with
      stamp := run.stamp, ok := some false, error := some e } }

def failDkim (e : Failure) (sync : Sync) : Sync :=
  { sync with dkim := some { sync.dkim.getD { stamp := run.stamp } with stamp := run.stamp, ok := some false, error := some e } }

def failConnector (e : Failure) (sync : Sync) : Sync :=
  { sync with connector := some { sync.connector.getD { stamp := run.stamp } with
      stamp := run.stamp, ok := some false, error := some e } }

def failMirror (e : Failure) (sync : Sync) : Sync :=
  { sync with mirror := some { sync.mirror.getD { stamp := run.stamp } with stamp := run.stamp, ok := some false, error := some e } }

def failAuthoritative (e : Failure) (sync : Sync) : Sync :=
  { sync with authoritative := some { sync.authoritative.getD { stamp := run.stamp } with
      stamp := run.stamp, ok := some false, error := some e } }

def mirrorSteps (type : DomainType) : Run.M Bool := do
  let mirror ← step (failMirror run) (syncMirror world run)
  let out ← outcome
  let _ ← step (failAuthoritative run) (syncAuthoritative world run mirror.join (out.acceptedType <|> some type))
  pure true

def connectorSteps (type : DomainType) : Run.M Bool := do
  let out ← outcome
  if !reached out.state .internalRelay then pure false
  else do
    let _ ← step (failConnector run) (syncConnector world run)
    let out ← outcome
    if !mirroredStates.contains out.state then pure false else mirrorSteps world run type

/-- Past the accepted domain's type. -/
def tenantSteps (type : DomainType) : Run.M Bool := do
  let out ← outcome
  if !reached out.state .tenantVerified then pure false
  else do
    let _ ← (if run.row.dkimEop.getD run.settings.dkimEop then step (failDkim run) (syncDkim world run) else pure none)
    connectorSteps world run type

/-- The steps of a run; `true` when it went through all of them. -/
def stages : Run.M Bool := do
  let verified ← step (failGraph run) (syncGraph world run)
  if verified ≠ some true then pure false
  else do
    let type ← step (failAccepted run) (syncAccepted world run)
    match type.join with
    | none => pure false
    | some type => tenantSteps world run type

def endThrottled (e : Fault) (out : Out) : Out :=
  { out with throttled := some (e.code, e.retryAfterMs)
             sync := { out.sync with ok := false, throttled := some (e.code, e.retryAfterMs) } }

def syncDomain : Run.M Unit := do
  let finished ← (stages world run).orElse fun e => do
    setOut (endThrottled e)
    pure true
  setOut fun out => if finished then { out with sync := { out.sync with ok := out.sync.ok && out.sync.allOk } } else out

/-- Where a run ends, whatever it was answered. -/
def Run.finish : Run.State := (syncDomain world run { log := [], own := { out := Out.start run } }).2

/-- Whether the outcome was written, and the row after it. -/
def persistSync (row : Row) (start : DomainState) (result : Out) : Bool × Row :=
  if row.state = start then
    (true, { row with
      tenantSync := some result.sync
      state := result.state
      steps := row.steps ++ result.steps
      tenant := {
        verificationTxt := result.tenant.verificationTxt <|> row.tenant.verificationTxt
        dkimSelector1Cname := result.tenant.dkimSelector1Cname <|> row.tenant.dkimSelector1Cname
        dkimSelector2Cname := result.tenant.dkimSelector2Cname <|> row.tenant.dkimSelector2Cname }
      tenantByHand := row.tenantByHand && result.tenant == {}
      expectedMx := result.expectedMx <|> row.expectedMx
      acceptedDomainType := result.acceptedType <|> row.acceptedDomainType })
  else (false, row)

end MailExpert.TenantDomains
