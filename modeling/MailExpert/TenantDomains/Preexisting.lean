import MailExpert.TenantDomains.Sync

/-!
# A domain the tenant had before

The knowledge that a domain was in the tenant before the panel is one flag of `tenant_sync.graph`. A run reads it from
the last run's part, or sets it when there is none. `KeepsFlag` is what the tenant's answers to Graph must be like for
the flag not to get lost; under it a run without an administrator's approval leaves the type of such a domain alone.
-/

namespace MailExpert.TenantDomains

open Prog

/-- The last run's part says the domain was there first. -/
def Run.knows (run : Run) : Bool := run.previousGraph.any (·.preexisting)

def Asks (log : List Event) (c : Call) : Prop := ∃ e ∈ log, e.call = c

theorem asks_iff {log : List Event} {c : Call} : Asks log c ↔ c ∈ log.map (·.call) := by
  simp [Asks]

/-- An answer that does not cost the flag: the domain is shown, the call is throttled, or its failure is one the step
goes on from. That the domain is missing is no such answer when it comes after an attempt to add it; that it is there
already is one only when the flag is known. -/
def FlagSafe (known : Bool) (earlier : List Event) : Event → Prop
  | ⟨.getDomain, .ok found⟩ => Asks earlier .addDomain → found.isSome = true
  | ⟨.getDomain, .error f⟩ => if f.graphStatus [404] then ¬Asks earlier .addDomain else f.throttles = true
  | ⟨.addDomain, .error f⟩ => f.throttles = true ∨ (known = true ∧ f.graphStatus [400, 409, 503, 504] = true)
  | ⟨.verifyDomain, .error f⟩ => f.throttles = true ∨ f.graphStatus [400] = true
  | ⟨.getVerificationRecords, .error f⟩ | ⟨.addEmailService _, .error f⟩ | ⟨.getServiceRecords, .error f⟩ => f.throttles = true
  | _ => True

/-- Every answer of the log was such an answer. -/
def KeepsFlag (known : Bool) (log : List Event) : Prop :=
  ∀ later e earlier, log = later ++ e :: earlier → FlagSafe known earlier e

/-- The domain was there first: it is not added, and shows no type that is neither of the two. -/
structure WasThere (world : World) : Prop where
  notAdded : ∀ n added, world n .addDomain ≠ .ok added
  type : ∀ n (found : AcceptedDomain), world n .getAcceptedDomain = .ok (some found) →
    found.domainType = some .authoritative ∨ found.domainType = some .internalRelay

section Log

variable {known : Bool} {e : Event} {log log' : List Event}

theorem KeepsFlag.of_suffix (h : KeepsFlag known log') (hs : log <:+ log') : KeepsFlag known log := by
  obtain ⟨new, rfl⟩ := hs
  rintro later e earlier rfl
  exact h (new ++ later) e earlier (by simp)

theorem KeepsFlag.head (h : KeepsFlag known (e :: log)) : FlagSafe known log e := h [] e log rfl

/-- Answers that are safe wherever they come. -/
theorem KeepsFlag.of_all (h : ∀ e ∈ log, ∀ earlier, FlagSafe known earlier e) : KeepsFlag known log := by
  rintro later e earlier rfl
  exact h e (by simp) earlier

end Log

/-! ## What the parts of a run leave alone -/

section Moves

variable {world : World} {run : Run} {α : Type}

def Grows (s t : Run.State) : Prop := s.log <:+ t.log

/-- Without a change of the domain's type to Internal Relay and with Graph's part as it was. -/
def LeavesFlag (s t : Run.State) : Prop :=
  s.log <:+ t.log ∧ (¬Asks s.log .setAcceptedDomainInternalRelay → ¬Asks t.log .setAcceptedDomainInternalRelay) ∧
    t.own.out.sync.graph = s.own.out.sync.graph

instance : IsPreorder Run.State Grows where
  refl s := List.suffix_refl s.log
  trans _ _ _ h h' := List.IsSuffix.trans h h'

instance : IsPreorder Run.State LeavesFlag where
  refl s := ⟨List.suffix_refl s.log, id, rfl⟩
  trans _ _ _ h h' := ⟨h.1.trans h'.1, fun hs => h'.2.1 (h.2.1 hs), h'.2.2.trans h.2.2⟩

theorem asks_cons {log : List Event} {e : Event} {c : Call} : Asks (e :: log) c ↔ e.call = c ∨ Asks log c := by
  simp [Asks]

theorem LeavesFlag.record {s : Run.State} {e : Event} (h : e.call ≠ .setAcceptedDomainInternalRelay) :
    LeavesFlag s (s.record e) :=
  ⟨List.suffix_cons e s.log, fun hs hasks => (asks_cons.mp hasks).elim h hs, rfl⟩

theorem Grows.of_leaves {m : Run.M α} (h : Moves LeavesFlag m) : Moves Grows m := fun s => (h s).1

theorem ask_leaves {c : Call} (h : c ≠ .setAcceptedDomainInternalRelay) : Moves LeavesFlag (ask world c) :=
  Moves.ask fun _ _ he => LeavesFlag.record (he ▸ h)

theorem setOut_leaves {g : Out → Out} (h : ∀ out, (g out).sync.graph = out.sync.graph) : Moves LeavesFlag (setOut g) :=
  Moves.change fun s => ⟨List.suffix_refl s.log, id, h s.own.out⟩

theorem setWork_leaves {g : MirrorWork → MirrorWork} : Moves LeavesFlag (setWork g) :=
  Moves.change fun s => ⟨List.suffix_refl s.log, id, rfl⟩

theorem readAccepted_leaves : Moves LeavesFlag (readAccepted world) :=
  (ask_leaves (by simp)).orElse fun _ => Moves.ite (fun _ => Moves.pure) fun _ => Moves.fail

theorem readDkim_leaves : Moves LeavesFlag (readDkim world) :=
  (ask_leaves (by simp)).orElse fun _ => Moves.ite (fun _ => Moves.pure) fun _ => Moves.fail

theorem makeDkim_leaves : Moves LeavesFlag (makeDkim world) :=
  Moves.bind ((ask_leaves (by simp)).orElse fun _ => Moves.ite (fun _ => Moves.pure) fun _ => Moves.fail)
    fun _ => readDkim_leaves

theorem enableDkim_leaves {config : DkimConfig} : Moves LeavesFlag (enableDkim world config) := by
  refine Moves.orElse (Moves.bind (ask_leaves (by simp)) fun _ => Moves.bind readDkim_leaves fun _ => Moves.pure) fun _ => ?_
  exact Moves.ite (fun _ => Moves.fail) fun _ => Moves.ite (fun _ => Moves.pure) fun _ => Moves.fail

theorem syncDkim_leaves : Moves LeavesFlag (syncDkim world run) := by
  refine Moves.bind readDkim_leaves fun first => ?_
  refine Moves.bind (Moves.ite (fun _ => Moves.pure) fun _ => makeDkim_leaves) fun config => ?_
  cases config with
  | none => exact setOut_leaves fun _ => rfl
  | some config =>
    refine Moves.bind (setOut_leaves fun _ => rfl) fun _ => ?_
    refine Moves.bind (Moves.ite (fun _ => Moves.pure) fun _ => enableDkim_leaves) fun _ => ?_
    exact setOut_leaves fun _ => rfl

theorem concludeConnector_leaves {name : String} {connector : OutboundConnector} {addedAt : Option Nat} :
    Moves LeavesFlag (concludeConnector run name connector addedAt) := by
  refine Moves.bind (setOut_leaves fun _ => rfl) fun _ => Moves.bind (setOut_leaves fun out => ?_) fun _ => Moves.pure
  split
  · rfl
  · rfl

theorem syncConnector_leaves : Moves LeavesFlag (syncConnector world run) := by
  refine Moves.bind (ask_leaves (by simp)) fun rows => ?_
  cases pickOutboundConnector rows run.settings.outboundConnector with
  | error e => exact Moves.bind (setOut_leaves fun _ => rfl) fun _ => Moves.pure
  | ok picked =>
    refine Moves.ite (fun _ => concludeConnector_leaves) fun _ => ?_
    cases picked.guid with
    | none => exact Moves.bind (setOut_leaves fun _ => rfl) fun _ => Moves.pure
    | some guid =>
      refine Moves.bind (Moves.bind (ask_leaves (by simp)) fun _ => ?_) fun _ => concludeConnector_leaves
      exact Moves.bind (ask_leaves (by simp)) fun _ => Moves.pure

theorem write_leaves {w : ContactWrite} {address : Address} {okCodes : List Code} :
    Moves LeavesFlag (write world w address okCodes) := by
  refine Moves.bind setWork_leaves fun _ => ?_
  refine Moves.orElse (Moves.bind (ask_leaves (by simp)) fun _ => Moves.pure) fun _ => ?_
  refine Moves.ite (fun _ => Moves.fail) fun _ => Moves.ite (fun _ => Moves.pure) fun _ => ?_
  exact Moves.ite (fun _ => Moves.bind setWork_leaves fun _ => Moves.pure) fun _ => Moves.fail

theorem ifBudget_leaves {m : Run.M Unit} (h : Moves LeavesFlag m) : Moves LeavesFlag (ifBudget m) :=
  Moves.bind Moves.gets fun _ => Moves.ite (fun _ => Moves.pure) fun _ => h

theorem hideContact_leaves {address : Address} : Moves LeavesFlag (hideContact world address) :=
  Moves.bind write_leaves fun _ => Moves.pure

theorem createContact_leaves {address : Address} : Moves LeavesFlag (createContact world run address) := by
  refine Moves.bind write_leaves fun done => ?_
  cases done with
  | code _ => exact setWork_leaves
  | failed => exact Moves.pure
  | ok => exact Moves.bind setWork_leaves fun _ => ifBudget_leaves hideContact_leaves

theorem applyPlan_leaves {plan : Plan} {removals : List Address} :
    Moves LeavesFlag (applyPlan world run plan removals) := by
  refine Moves.bind (Moves.each fun _ => ifBudget_leaves createContact_leaves) fun _ => ?_
  refine Moves.bind (Moves.each fun _ => ifBudget_leaves <| Moves.bind write_leaves fun _ =>
    Moves.ite (fun _ => Moves.pure) fun _ => setWork_leaves) fun _ => ?_
  refine Moves.bind (Moves.each fun _ => ifBudget_leaves <| Moves.bind write_leaves fun _ =>
    Moves.ite (fun _ => Moves.pure) fun _ => setWork_leaves) fun _ => ?_
  refine Moves.bind (Moves.each fun _ => ifBudget_leaves hideContact_leaves) fun _ => ?_
  refine Moves.bind Moves.gets fun work => Moves.ite (fun _ => Moves.pure) fun _ => ?_
  exact Moves.bind (ask_leaves (by simp)) fun _ => Moves.each fun _ => setWork_leaves

theorem syncMirror_leaves : Moves LeavesFlag (syncMirror world run) := by
  refine Moves.bind Moves.gets fun out => Moves.bind (ask_leaves (by simp)) fun node => ?_
  cases node with
  | unread code message => exact Moves.bind (setOut_leaves fun _ => rfl) fun _ => Moves.pure
  | view mailboxes aliases =>
    refine Moves.bind (ask_leaves (by simp)) fun panel => Moves.bind (ask_leaves (by simp)) fun recipients => ?_
    refine Moves.bind (Moves.bind setWork_leaves fun _ => ?_) fun _ => Moves.pure
    refine Moves.bind (applyPlan_leaves.andFinally fun s => ⟨List.suffix_refl s.log, id, rfl⟩) fun _ => ?_
    refine Moves.bind (setOut_leaves fun out => ?_) fun _ => Moves.bind Moves.gets fun _ => Moves.pure
    unfold followMirror
    dsimp only
    split
    · rfl
    split
    · rfl
    · rfl

theorem concludeAuthoritative_leaves {type : Option DomainType} : Moves LeavesFlag (concludeAuthoritative run type) := by
  refine Moves.bind (setOut_leaves fun _ => rfl) fun _ => setOut_leaves fun out => ?_
  split
  · dsimp only
    split
    · rfl
    · rfl
  · rfl

theorem syncAuthoritative_leaves {mirror : Option Bool} {type : Option DomainType} :
    Moves LeavesFlag (syncAuthoritative world run mirror type) := by
  refine Moves.bind Moves.gets fun out => Moves.ite (fun _ => ?_) fun _ => ?_
  · exact Moves.ite (fun _ => setOut_leaves fun _ => rfl) fun _ => Moves.pure
  refine Moves.ite (fun _ => setOut_leaves fun _ => rfl) fun _ => Moves.ite (fun _ => Moves.pure) fun _ => ?_
  refine Moves.ite (fun _ => ?_) fun _ => concludeAuthoritative_leaves
  exact Moves.bind (ask_leaves (by simp)) fun _ => Moves.bind readAccepted_leaves fun _ => concludeAuthoritative_leaves

theorem step_leaves {keep : Failure → Sync → Sync} {m : Run.M α} (h : Moves LeavesFlag m)
    (hkeep : ∀ e sync, (keep e sync).graph = sync.graph) : Moves LeavesFlag (step keep m) := by
  refine Moves.orElse (Moves.bind h fun _ => Moves.pure) fun e => Moves.ite (fun _ => Moves.fail) fun _ => ?_
  exact Moves.bind (setOut_leaves fun out => hkeep _ _) fun _ => Moves.pure

/-- Past the domain's type nothing touches the flag. -/
theorem tenantSteps_leaves {type : DomainType} : Moves LeavesFlag (tenantSteps world run type) := by
  refine Moves.bind Moves.gets fun _ => Moves.ite (fun _ => Moves.pure) fun _ => ?_
  refine Moves.bind (Moves.ite (fun _ => step_leaves syncDkim_leaves fun _ _ => rfl) fun _ => Moves.pure) fun _ => ?_
  refine Moves.bind Moves.gets fun _ => Moves.ite (fun _ => Moves.pure) fun _ => ?_
  refine Moves.bind (step_leaves syncConnector_leaves fun _ _ => rfl) fun _ => ?_
  refine Moves.bind Moves.gets fun _ => Moves.ite (fun _ => Moves.pure) fun _ => ?_
  refine Moves.bind (step_leaves syncMirror_leaves fun _ _ => rfl) fun _ => ?_
  refine Moves.bind Moves.gets fun _ => ?_
  exact Moves.bind (step_leaves syncAuthoritative_leaves fun _ _ => rfl) fun _ => Moves.pure

end Moves

/-! ## The flag -/

section Flag

variable {world : World} {run : Run} {known : Bool} {p : Prop} {α : Type}

/-- Nothing is kept of Graph's part yet, and the type was not changed. -/
structure Before (s : Run.State) : Prop where
  graph : s.own.out.sync.graph = none
  left : ¬Asks s.log .setAcceptedDomainInternalRelay

/-- The flag is set, and the type was not changed. -/
structure Flagged (s : Run.State) : Prop where
  flag : s.own.out.sync.graph.any (·.preexisting) = true
  left : ¬Asks s.log .setAcceptedDomainInternalRelay

/-- An end that costs no flag: none is kept, or a set one. -/
structure FlagKept (s : Run.State) : Prop where
  flag : s.own.out.sync.graph = none ∨ s.own.out.sync.graph.any (·.preexisting) = true
  left : ¬Asks s.log .setAcceptedDomainInternalRelay

theorem Before.kept {s : Run.State} (h : Before s) : FlagKept s := ⟨.inl h.graph, h.left⟩

theorem Flagged.kept {s : Run.State} (h : Flagged s) : FlagKept s := ⟨.inr h.flag, h.left⟩

theorem Before.record {s : Run.State} {e : Event} (h : Before s) (he : e.call ≠ .setAcceptedDomainInternalRelay) :
    Before (s.record e) := ⟨h.graph, (LeavesFlag.record he).2.1 h.left⟩

theorem Flagged.move {s t : Run.State} (h : Flagged s) (ht : LeavesFlag s t) : Flagged t :=
  ⟨ht.2.2 ▸ h.flag, ht.2.1 h.left⟩

/-- What a throw of the Graph step is, as long as the answers keep the flag. -/
def Throttled (known : Bool) (e : Fault) (s : Run.State) : Prop :=
  Before s ∧ (KeepsFlag known s.log → e.throttles = true)

/-- The domain is looked up; after an attempt to add it, it is found. What the answers so far imply stays implied. -/
theorem graphDomain_before {q : Prop} :
    Spec (fun s => Before s ∧ (p → Asks s.log .addDomain) ∧ (KeepsFlag known s.log → q)) (graphDomain world)
      (fun found s => Before s ∧ (p → KeepsFlag known s.log → found.isSome = true) ∧ (KeepsFlag known s.log → q))
      (Throttled known) := by
  have hearlier : ∀ {e : Event} {log : List Event}, (KeepsFlag known log → q) → KeepsFlag known (e :: log) → q :=
    fun h hkeeps => h (hkeeps.of_suffix (List.suffix_cons _ _))
  refine Spec.orElse (E := fun e s => Before s ∧ (KeepsFlag known s.log → q) ∧
    ∃ earlier, s.log = { call := .getDomain, answer := .error e } :: earlier ∧ (p → Asks earlier .addDomain))
    (Spec.ask (fun s found hs _ => ?_) fun s f hs _ => ?_) fun f => ?_
  · exact ⟨hs.1.record (by simp), fun hp hkeeps => hkeeps.head (hs.2.1 hp), hearlier hs.2.2⟩
  · exact ⟨hs.1.record (by simp), hearlier hs.2.2, s.log, rfl, hs.2.1⟩
  refine Spec.ite (fun hmissing => Spec.pure fun s hs => ⟨hs.1, fun hp hkeeps => ?_, hs.2.1⟩) fun hmissing =>
    Spec.fail fun s hs => ⟨hs.1, fun hkeeps => ?_⟩
  · obtain ⟨-, -, earlier, hlog, hadded⟩ := hs
    have hsafe : FlagSafe known earlier ⟨.getDomain, .error f⟩ := (hlog ▸ hkeeps).head
    rw [FlagSafe, if_pos hmissing] at hsafe
    exact absurd (hadded hp) hsafe
  · obtain ⟨-, -, earlier, hlog, -⟩ := hs
    have hsafe : FlagSafe known earlier ⟨.getDomain, .error f⟩ := (hlog ▸ hkeeps).head
    rwa [FlagSafe, if_neg hmissing] at hsafe

theorem freshPart_preexisting (h : run.knows = true) : (freshPart run).preexisting = true := by
  unfold freshPart
  cases hgraph : run.previousGraph with
  | none => simp [Run.knows, hgraph] at h
  | some part => simpa [Run.knows, hgraph] using h

/-- What stays of the last part carries the flag, or there was none to carry it. -/
def Run.Trusted (run : Run) : Prop := run.previousGraph = none ∨ run.knows = true

theorem findDomain_before (hworld : WasThere world) (htrusted : run.Trusted) :
    Spec Before (findDomain world run)
      (fun r s => Before s ∧ (KeepsFlag run.knows s.log → r.2.preexisting = true)) (Throttled run.knows) := by
  refine Spec.bind (Spec.weaken (graphDomain_before (p := False) (q := True)) (fun _ hs => ⟨hs, False.elim, fun _ => trivial⟩)
    (fun _ _ hs => hs.1) fun _ _ hs => hs) fun found => ?_
  refine Spec.ite (fun _ => Spec.pure fun s hs => ⟨hs, fun _ => ?_⟩) fun _ => ?_
  · rcases htrusted with hnone | hknows
    · simp [hnone]
    · split
      · rfl
      · exact freshPart_preexisting hknows
  -- the tenant shows no domain: adding it fails, and the failure says it is there
  refine Spec.orElse (E := fun e s => Before s ∧ Asks s.log .addDomain ∧
    (KeepsFlag run.knows s.log → FlagSafe run.knows [] ⟨.addDomain, .error e⟩)) ?_ fun e => ?_
  · refine Spec.bind (Q := fun _ _ => False) (Spec.ask (fun s added _ h => absurd h (hworld.notAdded _ _)) fun s e hs _ => ?_)
      fun _ => Spec.pure fun _ hs => hs.elim
    exact ⟨hs.record (by simp), asks_cons.mpr (.inl rfl), fun hkeeps => hkeeps.head⟩
  refine Spec.ite (fun hthrottles => Spec.fail fun s hs => ⟨hs.1, fun _ => hthrottles⟩) fun hthrottles => ?_
  have hsafe : FlagSafe run.knows [] ⟨.addDomain, .error e⟩ →
      run.knows = true ∧ e.graphStatus [400, 409, 503, 504] = true := fun h => h.resolve_left hthrottles
  refine Spec.ite (fun _ => ?_) fun hstatus => Spec.fail fun s hs => ⟨hs.1, fun hkeeps => ?_⟩
  · refine Spec.bind (Spec.pre (graphDomain_before (p := True) (q := run.knows = true)) fun s hs =>
      ⟨hs.1, fun _ => hs.2.1, fun hkeeps => (hsafe (hs.2.2 hkeeps)).1⟩) fun again => ?_
    refine Spec.ite (fun _ => Spec.pure fun s hs => ⟨hs.1, fun hkeeps => freshPart_preexisting (hs.2.2 hkeeps)⟩) fun hnone => ?_
    exact Spec.fail fun s hs => ⟨hs.1, fun hkeeps => absurd (hs.2.1 trivial hkeeps) hnone⟩
  · exact absurd (hsafe (hs.2.2 hkeeps)).2 hstatus

/-- What is carried along beside the state of the part: the flag, as long as the answers keep it. -/
def Carrying (known : Bool) (flag : Bool) (s : Run.State) : Prop := Before s ∧ (KeepsFlag known s.log → flag = true)

theorem ask_carrying {c : Call} {flag : Bool} (hc : c ≠ .setAcceptedDomainInternalRelay)
    (hsafe : ∀ earlier f, FlagSafe known earlier ⟨c, .error f⟩ → f.throttles = true) :
    Spec (Carrying known flag) (ask world c) (fun _ => Carrying known flag) (Throttled known) := by
  refine Spec.ask (fun s a hs _ => ⟨hs.1.record hc, fun hkeeps => hs.2 (hkeeps.of_suffix (List.suffix_cons _ _))⟩) fun s f hs _ => ?_
  exact ⟨hs.1.record hc, fun hkeeps => hsafe _ f hkeeps.head⟩

theorem setOut_carrying {g : Out → Out} {flag : Bool} {E : Fault → Run.State → Prop}
    (h : ∀ out, (g out).sync.graph = out.sync.graph) :
    Spec (Carrying known flag) (setOut g) (fun _ => Carrying known flag) E :=
  Spec.change fun s hs => ⟨⟨(h s.own.out).trans hs.1.graph, hs.1.left⟩, hs.2⟩

theorem verifyDomain_carrying {state : DomainState} {found : Option TenantDomain} {part : GraphPart} :
    Spec (Carrying known part.preexisting) (verifyDomain world state found part) (fun r => Carrying known r.2.preexisting)
      (Throttled known) := by
  refine Spec.bind (ask_carrying (by simp) fun _ _ h => h) fun txt => ?_
  refine Spec.bind (setOut_carrying fun _ => rfl) fun _ => Spec.ite (fun _ => ?_) fun _ => Spec.pure fun _ hs => hs
  refine Spec.orElse (E := fun e s => Carrying known part.preexisting s ∧
    (KeepsFlag known s.log → FlagSafe known [] ⟨.verifyDomain, .error e⟩)) ?_ fun e => ?_
  · refine Spec.bind (Q := fun _ => Carrying known part.preexisting) (Spec.ask (fun s a hs _ => ?_) fun s f hs _ => ?_)
      fun _ => Spec.pure fun _ hs => hs
    · exact ⟨hs.1.record (by simp), fun hkeeps => hs.2 (hkeeps.of_suffix (List.suffix_cons _ _))⟩
    · exact ⟨⟨hs.1.record (by simp), fun hkeeps => hs.2 (hkeeps.of_suffix (List.suffix_cons _ _))⟩, fun hkeeps => hkeeps.head⟩
  refine Spec.ite (fun hthrottles => Spec.fail fun s hs => ⟨hs.1.1, fun _ => hthrottles⟩) fun hthrottles => ?_
  refine Spec.ite (fun _ => Spec.pure fun _ hs => hs.1) fun hstatus => Spec.fail fun s hs => ⟨hs.1.1, fun hkeeps => ?_⟩
  exact (hs.2 hkeeps).resolve_right hstatus

theorem serveMail_carrying {found : Option TenantDomain} {part : GraphPart} :
    Spec (Carrying known part.preexisting) (serveMail world run found part) (fun r => Carrying known r.preexisting)
      (Throttled known) := by
  refine Spec.bind (Q := fun _ => Carrying known part.preexisting)
    (Spec.ite (fun _ => Spec.pure fun _ hs => hs) fun _ => ask_carrying (by simp) fun _ _ h => h) fun _ => ?_
  refine Spec.bind (ask_carrying (by simp) fun _ _ h => h) fun mx => ?_
  refine Spec.bind (setOut_carrying fun out => ?_) fun _ => ?_
  · split
    · rfl
    · rfl
  refine Spec.bind (setOut_carrying fun out => ?_) fun _ => Spec.pure fun _ hs => hs
  split
  · rfl
  · rfl

/-- The Graph step leaves the flag set, or is throttled. -/
theorem syncGraph_flagged (hworld : WasThere world) (htrusted : run.Trusted) :
    Spec Before (syncGraph world run) (fun _ s => KeepsFlag run.knows s.log → Flagged s) (Throttled run.knows) := by
  have hkeep : ∀ {part : GraphPart}, Spec (Carrying run.knows part.preexisting) (keepGraph part)
      (fun _ s => KeepsFlag run.knows s.log → Flagged s) (Throttled run.knows) := by
    intro part
    exact Spec.change fun s hs hkeeps => ⟨hs.2 hkeeps, hs.1.left⟩
  refine Spec.bind (Spec.gets.post fun _ _ h => h.2) fun out => ?_
  refine Spec.bind (findDomain_before hworld htrusted) fun first => ?_
  refine Spec.bind (Q := fun r => Carrying run.knows r.2.preexisting) ?_ fun second => ?_
  · exact Spec.ite (fun _ => Spec.pure fun _ hs => hs) fun _ => Spec.pre verifyDomain_carrying fun _ hs => hs
  refine Spec.ite (fun _ => ?_) fun _ => Spec.bind hkeep fun _ => Spec.pure fun _ hs => hs
  exact Spec.bind serveMail_carrying fun _ => Spec.bind hkeep fun _ => Spec.pure fun _ hs => hs

/-! ## A run -/

/-- The flag is set and the type unchanged, as long as the answers keep the flag. -/
def Upheld (known : Bool) (s : Run.State) : Prop := KeepsFlag known s.log → Flagged s

theorem Upheld.move {s t : Run.State} (h : Upheld known s) (ht : LeavesFlag s t) : Upheld known t :=
  fun hkeeps => (h (hkeeps.of_suffix ht.1)).move ht

theorem upheld_of_moves {m : Run.M α} (hm : Moves LeavesFlag m) :
    Spec (Upheld known) m (fun _ => Upheld known) fun _ => Upheld known := hm.spec fun _ _ ht hs => hs.move ht

theorem relayDomain_grows : Moves Grows (relayDomain world) :=
  Moves.bind (Moves.ask fun _ e _ => List.suffix_cons e _) fun _ =>
    Moves.bind (Grows.of_leaves readAccepted_leaves) fun _ => Moves.pure

/-- One of the two types such a domain shows. -/
def Typed (found : Option AcceptedDomain) : Prop :=
  ∀ d, found = some d → d.domainType = some .authoritative ∨ d.domainType = some .internalRelay

theorem readAccepted_typed {base : List Event} (hworld : WasThere world) :
    Spec (fun s => base <:+ s.log ∧ Upheld known s) (readAccepted world)
      (fun found s => (base <:+ s.log ∧ Upheld known s) ∧ Typed found) fun _ => Upheld known := by
  have hrecord : ∀ {s : Run.State} {e : Event}, base <:+ s.log ∧ Upheld known s →
      e.call ≠ .setAcceptedDomainInternalRelay → base <:+ (s.record e).log ∧ Upheld known (s.record e) :=
    fun hs he => ⟨hs.1.trans (List.suffix_cons _ _), hs.2.move (.record he)⟩
  refine Spec.orElse (E := fun _ s => base <:+ s.log ∧ Upheld known s)
    (Spec.ask (fun s found hs hanswer => ⟨hrecord hs (by simp), ?_⟩) fun s e hs _ => hrecord hs (by simp)) fun e => ?_
  · rintro d rfl
    exact hworld.type _ d hanswer
  refine Spec.ite (fun _ => Spec.pure fun s hs => ⟨hs, fun d hd => ?_⟩) fun _ => Spec.fail fun _ hs => hs.2
  cases hd

/-- Without approval the type of a domain that was there first stays as it is. -/
theorem syncAccepted_upheld (hworld : WasThere world) (happroval : run.row.internalRelayApprovedAt = none) :
    Spec (Upheld known) (syncAccepted world run) (fun _ => Upheld known) fun _ => Upheld known := by
  have hset : ∀ {g : Out → Out}, (∀ out, (g out).sync.graph = out.sync.graph) →
      Spec (Upheld known) (setOut g) (fun _ => Upheld known) fun _ => Upheld known :=
    fun h => upheld_of_moves (setOut_leaves h)
  have hread : ∀ base : List Event, Spec (fun s => base <:+ s.log ∧ Upheld known s) (readAccepted world)
      (fun found s => (base <:+ s.log ∧ Upheld known s) ∧ Typed found) fun _ => Upheld known :=
    fun _ => readAccepted_typed hworld
  refine Spec.bind (Q := fun out s => (KeepsFlag known s.log → out.sync.graph.any (·.preexisting) = true) ∧ Upheld known s)
    (Spec.post Spec.gets fun out s hs => ⟨fun hkeeps => hs.1 ▸ (hs.2 hkeeps).flag, hs.2⟩) fun out => ?_
  refine Spec.intro fun start hstart => ?_
  refine Spec.bind (Spec.pre (hread start.log) fun s hs => ?_) fun found => ?_
  · subst hs
    exact ⟨List.suffix_refl _, hstart.2⟩
  refine Spec.ite (fun _ => ?_) fun hfound => ?_
  · refine Spec.bind (Spec.pre (hset fun _ => rfl) fun _ hs => hs.1.2) fun _ => ?_
    exact Spec.bind (hset fun _ => rfl) fun _ => Spec.pure fun _ hs => hs
  refine Spec.ite (fun _ => ?_) fun hheld => ?_
  · refine Spec.bind (Spec.pre (hset fun _ => rfl) fun _ hs => hs.1.2) fun _ => ?_
    exact Spec.bind (hset fun _ => rfl) fun _ => Spec.pure fun _ hs => hs
  refine Spec.bind (Q := fun _ => Upheld known) (Spec.ite (fun hrelay => ?_) fun _ => Spec.pure fun _ hs => hs.1.2) fun type => ?_
  · -- the domain is authoritative and nobody approved, so the flag was lost before
    refine Spec.pre (P := fun s => (¬KeepsFlag known s.log)) (relayDomain_grows.spec fun s t ht hs hkeeps =>
      absurd (hkeeps.of_suffix ht) hs) fun s hs hkeeps => hheld ?_
    obtain ⟨d, rfl⟩ := Option.isSome_iff_exists.mp (by simpa [Option.isSome_iff_ne_none] using hfound : found.isSome = true)
    have htype : d.domainType = some .authoritative := (hs.2 d rfl).resolve_right hrelay.2
    have hflag := hstart.1 (hkeeps.of_suffix hs.1.1)
    simp [heldAuthoritative, htype, hrelay.1, hflag, happroval]
  refine Spec.bind (hset fun _ => rfl) fun _ => Spec.bind ?_ fun _ => Spec.pure fun _ hs => hs
  refine Spec.bind (hset fun out => ?_) fun _ => hset fun out => ?_
  · split
    · rfl
    · rfl
  · split
    · rfl
    · rfl

theorem stages_kept (hworld : WasThere world) (htrusted : run.Trusted) (happroval : run.row.internalRelayApprovedAt = none) :
    Spec Before (stages world run) (fun _ s => KeepsFlag run.knows s.log → FlagKept s)
      fun _ s => KeepsFlag run.knows s.log → FlagKept s := by
  have hupheld : ∀ {s : Run.State}, Upheld run.knows s → KeepsFlag run.knows s.log → FlagKept s :=
    fun hs hkeeps => (hs hkeeps).kept
  refine Spec.bind (Q := fun _ => Upheld run.knows) ?_ fun verified => ?_
  · refine Spec.orElse (Spec.bind (syncGraph_flagged hworld htrusted) fun _ => Spec.pure fun _ hs => hs) fun e => ?_
    refine Spec.ite (fun _ => Spec.fail fun s hs _ => hs.1.kept) fun hthrottles => ?_
    -- a failure that is no throttling cost the flag
    refine Spec.pre (P := fun s => ¬KeepsFlag run.knows s.log) ?_ fun s hs hkeeps => hthrottles (hs.2 hkeeps)
    exact Spec.bind (Q := fun _ s => ¬KeepsFlag run.knows s.log) (Spec.change fun _ hs => hs) fun _ =>
      Spec.pure fun _ hs hkeeps => absurd hkeeps hs
  refine Spec.ite (fun _ => Spec.pure fun _ hs => hupheld hs) fun _ => ?_
  refine Spec.bind (Q := fun _ => Upheld run.knows) ?_ fun type => ?_
  · refine Spec.orElse (Spec.bind (syncAccepted_upheld hworld happroval) fun _ => Spec.pure fun _ hs => hs) fun e => ?_
    refine Spec.ite (fun _ => Spec.fail fun _ hs => hupheld hs) fun _ => ?_
    exact Spec.bind (Q := fun _ => Upheld run.knows)
      (Spec.change fun _ hs hkeeps => ⟨(hs hkeeps).flag, (hs hkeeps).left⟩) fun _ => Spec.pure fun _ hs => hs
  cases type.join with
  | none => exact Spec.pure fun _ hs => hupheld hs
  | some type =>
    exact Spec.weaken (upheld_of_moves tenantSteps_leaves) (fun _ hs => hs) (fun _ _ hs => hupheld hs) fun _ _ hs => hupheld hs

/-- A run on a row that has the flag, or no part to carry it, leaves the type alone and the flag set. -/
theorem Run.finish_kept (hworld : WasThere world) (htrusted : run.Trusted)
    (happroval : run.row.internalRelayApprovedAt = none) (hkeeps : KeepsFlag run.knows (run.finish world).log) :
    FlagKept (run.finish world) := by
  have hstart : Before { log := [], own := { out := Out.start run } } := by
    refine ⟨rfl, ?_⟩
    rintro ⟨e, he, -⟩
    cases he
  have hspec : Spec Before (syncDomain world run) (fun _ s => KeepsFlag run.knows s.log → FlagKept s)
      fun _ s => KeepsFlag run.knows s.log → FlagKept s := by
    have hchange : ∀ {g : Out → Out}, (∀ out, (g out).sync.graph = out.sync.graph) →
        Spec (fun s => KeepsFlag run.knows s.log → FlagKept s) (setOut g)
          (fun _ s => KeepsFlag run.knows s.log → FlagKept s) fun _ s => KeepsFlag run.knows s.log → FlagKept s :=
      fun h => Spec.change fun s hs hkeeps => ⟨(h s.own.out).symm ▸ (hs hkeeps).flag, (hs hkeeps).left⟩
    refine Spec.bind (Spec.orElse (stages_kept hworld htrusted happroval) fun e => ?_) fun finished => hchange fun out => ?_
    · exact Spec.bind (hchange fun _ => rfl) fun _ => Spec.pure fun _ hs => hs
    · split
      · rfl
      · rfl
  have h := hspec _ hstart
  unfold Run.finish at hkeeps ⊢
  cases hrun : syncDomain world run { log := [], own := { out := Out.start run } } with
  | mk result s =>
    rw [hrun] at hkeeps
    cases result with
    | ok _ => exact h.1 _ _ hrun hkeeps
    | error e => exact h.2 _ _ hrun hkeeps

end Flag

end MailExpert.TenantDomains
