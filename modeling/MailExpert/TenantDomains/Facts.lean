import MailExpert.TenantDomains.Sync

/-!
# What a run has read

`PathInPlace` is what the log must show before a domain is made authoritative, `Confirms` the read that confirms a
step of the state. A `Fact` about the log outlives every further call; `Inv` carries what is known so far (`K`) from
call to call. While `clean`, no contact write has failed, but for one that the mirror takes for done
(`HidesAnswered`).
-/

namespace MailExpert.TenantDomains

abbrev Log := List Event

/-- The log has the answer `a` to the call `c`. -/
def Answered (log : Log) (c : Call) (a : c.Answer) : Prop := ({ call := c, answer := .ok a } : Event) ∈ log

def Verified (log : Log) : Prop :=
  ∃ found, isVerified found = true ∧
    (Answered log .getDomain found ∨ Answered log .addDomain found ∨ Answered log .verifyDomain found)

def Visible (log : Log) : Prop := ∃ found : AcceptedDomain, Answered log .getAcceptedDomain (some found)

def TypeRead (log : Log) (type : DomainType) : Prop :=
  ∃ found : AcceptedDomain, found.domainType = some type ∧ Answered log .getAcceptedDomain (some found)

/-- The connector new domains go to was read with the domain among its own; read again after the domain was added,
it is known by its Guid. -/
def Carried (run : Run) (log : Log) : Prop :=
  ∃ (rows rows' : List OutboundConnector) (picked connector : OutboundConnector),
    Answered log .getOutboundConnectors rows ∧ pickOutboundConnector rows run.settings.outboundConnector = .ok picked ∧
    Answered log .getOutboundConnectors rows' ∧ connector ∈ rows' ∧
    (connector = picked ∨ connector.guid = picked.guid) ∧ connectorHas connector run.domain = true

/-- Nothing to create, retarget or remove, but for contacts of aliases that wait for an administrator; no catch-all
and a node answer to trust. -/
structure Plan.Settled (run : Run) (plan : Plan) : Prop where
  create : plan.create = []
  retarget : plan.retarget = []
  remove : ∀ a ∈ plan.remove, a ∈ plan.nodeAliases ∧ run.row.aliasContactsApprovedAt = none
  catchAll : plan.catchAll = none
  trusted : plan.suspicious = false

/-- The node, the panel and the recipients were read, and the plan made from the answers leaves nothing to do. -/
def MirrorSettled (run : Run) (log : Log) : Prop :=
  ∃ reads : Reads, Answered log .nodeView (.view reads.mailboxes reads.aliases) ∧ Answered log .panelView reads.panel ∧
    Answered log .getRecipients reads.recipients ∧
    (planMirror run.domain run.settings.dbebExternalDomain reads).Settled run

def NoFailedWrite (log : Log) : Prop := ∀ e ∈ log, ∀ w, e.call = .writeContact w → e.error? = none

/-- No hiding of a contact was answered with an error of the tenant other than throttling. -/
def HidesAnswered (log : Log) : Prop :=
  ∀ e ∈ log, ∀ a, e.call = .writeContact (.hideMailContact a) → ∀ f, e.error? = some f →
    f.tenant = true → f.throttles = true

/-- Where the run found the row: ready with the hold off, or authoritative already. -/
def MaySwitch (run : Run) : Prop :=
  (run.row.state = .ready ∧ run.row.holdInternalRelay = false) ∨ run.row.state = .authoritative

/-- All that must be in place before the tenant rejects unknown recipients. -/
structure PathInPlace (run : Run) (log : Log) : Prop where
  verified : Verified log
  visible : Visible log
  carried : Carried run log
  mirror : MirrorSettled run log
  written : NoFailedWrite log
  row : MaySwitch run

/-- The steps the driver takes, and the read that confirms each. -/
inductive Confirms (run : Run) (log : Log) : DomainState → DomainState → Prop
  | verified : Verified log → Confirms run log .dnsOk .tenantVerified
  | relayed : TypeRead log .internalRelay → Confirms run log .tenantVerified .internalRelay
  | connected : Carried run log → Confirms run log .internalRelay .connectorReady
  | switched : TypeRead log .authoritative → Confirms run log .ready .authoritative

/-- Step after listed step, each confirmed by a read of the log. -/
abbrev Advances (run : Run) (log : Log) : DomainState → DomainState → Prop := Relation.ReflTransGen (Confirms run log)

/-- Where the domain was made authoritative, the path was in place before. -/
def Justified (run : Run) (log : Log) : Prop :=
  ∀ later e earlier, log = later ++ e :: earlier → e.call = .setAcceptedDomainAuthoritative →
    HidesAnswered earlier → PathInPlace run earlier

section Later

variable {run : Run} {log : Log} {e : Event} {c : Call} {a : c.Answer}

theorem Answered.later (h : Answered log c a) : Answered (e :: log) c a := List.mem_cons_of_mem _ h

theorem Verified.later (h : Verified log) : Verified (e :: log) := by
  obtain ⟨found, hv, h | h | h⟩ := h
  · exact ⟨found, hv, .inl h.later⟩
  · exact ⟨found, hv, .inr (.inl h.later)⟩
  · exact ⟨found, hv, .inr (.inr h.later)⟩

theorem Visible.later (h : Visible log) : Visible (e :: log) := by
  obtain ⟨found, h⟩ := h
  exact ⟨found, h.later⟩

theorem TypeRead.later {t : DomainType} (h : TypeRead log t) : TypeRead (e :: log) t := by
  obtain ⟨found, ht, h⟩ := h
  exact ⟨found, ht, h.later⟩

theorem Carried.later (h : Carried run log) : Carried run (e :: log) := by
  obtain ⟨rows, rows', picked, connector, h, hpick, h', hc⟩ := h
  exact ⟨rows, rows', picked, connector, h.later, hpick, h'.later, hc⟩

theorem MirrorSettled.later (h : MirrorSettled run log) : MirrorSettled run (e :: log) := by
  obtain ⟨reads, hn, hp, hr, hs⟩ := h
  exact ⟨reads, hn.later, hp.later, hr.later, hs⟩

theorem Confirms.later {s t : DomainState} (h : Confirms run log s t) : Confirms run (e :: log) s t := by
  cases h with
  | verified h => exact .verified h.later
  | relayed h => exact .relayed h.later
  | connected h => exact .connected h.later
  | switched h => exact .switched h.later

theorem Advances.later {s t : DomainState} (h : Advances run log s t) : Advances run (e :: log) s t :=
  h.lift id fun _ _ => Confirms.later

/-- The driver never makes a domain ready. -/
theorem Advances.ready {s : DomainState} (h : Advances run log s .ready) : s = .ready := by
  rcases Relation.ReflTransGen.cases_tail h with h | ⟨t, -, ht⟩
  · exact h.symm
  · cases ht

theorem HidesAnswered.earlier (h : HidesAnswered (e :: log)) : HidesAnswered log :=
  fun e he => h e (List.mem_cons_of_mem _ he)

theorem Justified.cons (h : Justified run log)
    (he : e.call = .setAcceptedDomainAuthoritative → HidesAnswered log → PathInPlace run log) :
    Justified run (e :: log) := by
  intro later e' earlier heq hcall
  cases later with
  | nil =>
    obtain ⟨rfl, rfl⟩ := List.cons.inj heq
    exact he hcall
  | cons first later => exact h later e' earlier (List.cons.inj heq).2 hcall

end Later

/-! ## The invariant -/

/-- What holds of a log, and of every longer one. -/
structure Fact where
  holds : Log → Prop
  later : ∀ {log e}, holds log → holds (e :: log)

namespace Fact

def nothing : Fact := ⟨fun _ => True, fun _ => trivial⟩

def and (K F : Fact) : Fact := ⟨fun log => K.holds log ∧ F.holds log, fun h => ⟨K.later h.1, F.later h.2⟩⟩

def answered (c : Call) (a : c.Answer) : Fact := ⟨fun log => Answered log c a, Answered.later⟩

def verified : Fact := ⟨Verified, Verified.later⟩

/-- A fact that is known only under a condition. -/
def given (p : Prop) (F : Fact) : Fact := ⟨fun log => p → F.holds log, fun h hp => F.later (h hp)⟩

def typeRead (t : DomainType) : Fact := ⟨fun log => TypeRead log t, TypeRead.later⟩

def visible : Fact := ⟨Visible, Visible.later⟩

def carried (run : Run) : Fact := ⟨Carried run, Carried.later⟩

def settled (run : Run) : Fact := ⟨MirrorSettled run, MirrorSettled.later⟩

end Fact

structure Inv (run : Run) (K : Fact) (clean : Prop) (s : Run.State) : Prop where
  known : K.holds s.log
  justified : Justified run s.log
  advances : Advances run s.log run.row.state s.own.out.state
  settled : s.own.out.state = .authoritative → run.row.state = .authoritative
  connector : s.own.out.sync.connector.any (·.ok == some true) = true → Carried run s.log
  type : ∀ t, s.own.out.acceptedType = some t → TypeRead s.log t
  visible : s.own.out.sync.acceptedDomain.any (·.visible) = true → Visible s.log
  written : clean → HidesAnswered s.log → NoFailedWrite s.log

/-- What is left of it once the domain may have been made authoritative. -/
def Ended (run : Run) (s : Run.State) : Prop :=
  Justified run s.log ∧ Advances run s.log run.row.state s.own.out.state

/-- The part of an outcome that `Inv` reads is the same, or says less. -/
structure Out.Agrees (out' out : Out) : Prop where
  state : out'.state = out.state
  connector : out'.sync.connector.any (·.ok == some true) = true → out.sync.connector.any (·.ok == some true) = true
  type : out'.acceptedType = out.acceptedType
  visible : out'.sync.acceptedDomain.any (·.visible) = true → out.sync.acceptedDomain.any (·.visible) = true

namespace Inv

variable {run : Run} {K F : Fact} {clean clean' : Prop} {s : Run.State} {e : Event}

theorem ended (h : Inv run K clean s) : Ended run s := ⟨h.justified, h.advances⟩

theorem weaken (h : Inv run K clean s) (hF : F.holds s.log) (hc : clean' → clean) : Inv run F clean' s :=
  { h with known := hF, written := fun hclean => h.written (hc hclean) }

theorem learn (h : Inv run K clean s) (hF : F.holds s.log) : Inv run (K.and F) clean s := h.weaken ⟨h.known, hF⟩ id

theorem forget (h : Inv run (K.and F) clean s) : Inv run K clean s := h.weaken h.known.1 id

theorem spoil (h : Inv run K clean s) : Inv run K False s := h.weaken h.known False.elim

theorem record (h : Inv run K clean s)
    (hset : e.call = .setAcceptedDomainAuthoritative → HidesAnswered s.log → PathInPlace run s.log)
    (hwrite : ∀ w, e.call = .writeContact w → clean → HidesAnswered (e :: s.log) → e.error? = none) :
    Inv run K clean (s.record e) where
  known := K.later h.known
  justified := h.justified.cons hset
  advances := h.advances.later
  settled := h.settled
  connector hc := (h.connector hc).later
  type t ht := (h.type t ht).later
  visible hv := (h.visible hv).later
  written hclean hhides := by
    intro e' he' w hw
    rcases List.mem_cons.mp he' with rfl | he'
    · exact hwrite w hw hclean hhides
    · exact h.written hclean hhides.earlier e' he' w hw

theorem agrees {out : Out} (h : Inv run K clean s) (ha : out.Agrees s.own.out) :
    Inv run K clean { s with own := { s.own with out := out } } where
  known := h.known
  justified := h.justified
  advances := ha.state ▸ h.advances
  settled := ha.state ▸ h.settled
  connector hc := h.connector (ha.connector hc)
  type t ht := h.type t (ha.type ▸ ht)
  visible hv := h.visible (ha.visible hv)
  written := h.written

/-- A step that a read confirms, short of the last one. -/
theorem advance {stamp : Nat} {next : DomainState} (h : Inv run K clean s)
    (hc : Confirms run s.log s.own.out.state next) (hnext : next ≠ .authoritative) :
    Inv run K clean { s with own := { s.own with out := s.own.out.advance stamp next } } :=
  { h with
    advances := h.advances.tail hc
    settled := fun heq => absurd heq hnext }

end Inv

end MailExpert.TenantDomains
