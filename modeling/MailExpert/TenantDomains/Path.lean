import MailExpert.TenantDomains.Facts

/-!
# The path to authoritative

What each part of a run does to the invariant, and from it: a run makes a domain authoritative only with the whole
path in place, and takes its state step after listed step.
-/

namespace MailExpert.TenantDomains

open Prog

variable {world : World} {run : Run} {K F : Fact} {clean : Prop} {α : Type} {E : Fault → Run.State → Prop}

theorem ask_spec {c : Call} (hset : c ≠ .setAcceptedDomainAuthoritative) (hwrite : ∀ w, c ≠ .writeContact w) :
    Spec (Inv run K clean) (ask world c) (fun a => Inv run (K.and (.answered c a)) clean) fun _ => Inv run K clean :=
  Spec.ask (fun _ _ hs _ => (hs.record (absurd · hset) fun w hw => absurd hw (hwrite w)).learn List.mem_cons_self)
    fun _ _ hs _ => hs.record (absurd · hset) fun w hw => absurd hw (hwrite w)

theorem setOut_spec {g : Out → Out} (h : ∀ out, (g out).Agrees out) :
    Spec (Inv run K clean) (setOut g) (fun _ => Inv run K clean) E :=
  Spec.change fun s hs => hs.agrees (h s.own.out)

theorem setOut_when {c : Out → Prop} [DecidablePred c] {g : Out → Out}
    (h : ∀ s, Inv run K clean s → c s.own.out → Inv run K clean { s with own := { s.own with out := g s.own.out } }) :
    Spec (Inv run K clean) (setOut fun out => if c out then g out else out) (fun _ => Inv run K clean) E := by
  refine Spec.change fun s hs => ?_
  by_cases hc : c s.own.out
  · simpa only [hc, if_true] using h s hs hc
  · simpa only [hc, if_false] using hs

theorem setWork_spec {g : MirrorWork → MirrorWork} :
    Spec (Inv run K clean) (setWork g) (fun _ => Inv run K clean) E :=
  Spec.change fun _ hs => { hs with }

theorem outcome_spec : Spec (Inv run K clean) outcome (fun _ => Inv run K clean) E :=
  Spec.gets.post fun _ _ h => h.2

theorem worked_spec : Spec (Inv run K clean) worked (fun _ => Inv run K clean) E :=
  Spec.gets.post fun _ _ h => h.2

theorem graphDomain_spec :
    Spec (Inv run K clean) (graphDomain world) (fun found => Inv run (K.and (.given (isVerified found = true) .verified)) clean)
      fun _ => Inv run K clean := by
  refine Spec.orElse ((ask_spec (by simp) (by simp)).post fun found s hs => hs.weaken ⟨hs.known.1, fun hv => ?_⟩ id)
    fun e => Spec.ite (fun _ => Spec.pure fun s hs => hs.learn fun hv => ?_) fun _ => Spec.fail fun _ hs => hs
  · exact ⟨found, hv, .inl hs.known.2⟩
  · simp [isVerified] at hv

theorem findDomain_spec :
    Spec (Inv run K clean) (findDomain world run)
      (fun r => Inv run (K.and (.given (isVerified r.1 = true) .verified)) clean) fun _ => Inv run K clean := by
  refine Spec.bind graphDomain_spec fun found => ?_
  refine Spec.ite (fun _ => Spec.pure fun _ hs => hs) fun _ => ?_
  refine Spec.pre (P := Inv run K clean) (Spec.orElse (Spec.bind (ask_spec (by simp) (by simp)) fun added => ?_) fun e => ?_)
    fun _ hs => hs.forget
  · exact Spec.pure fun s hs => hs.weaken ⟨hs.known.1, fun hv => ⟨added, hv, .inr (.inl hs.known.2)⟩⟩ id
  · refine Spec.ite (fun _ => Spec.fail fun _ hs => hs) fun _ => ?_
    refine Spec.ite (fun _ => Spec.bind graphDomain_spec fun again => ?_) fun _ => Spec.fail fun _ hs => hs
    exact Spec.ite (fun _ => Spec.pure fun _ hs => hs) fun _ => Spec.fail fun _ hs => hs.forget

theorem verifyDomain_spec {state : DomainState} {found : Option TenantDomain} {part : GraphPart}
    (hpart : part.verified = false) :
    Spec (Inv run K clean) (verifyDomain world state found part)
      (fun r => Inv run (K.and (.given (r.2.verified = true) .verified)) clean) fun _ => Inv run K clean := by
  have hunverified : ∀ {F : Fact} {s : Run.State}, Inv run K clean s →
      Inv run (K.and (.given (part.verified = true) F)) clean s :=
    fun hs => hs.learn fun hv => absurd hv (by simp [hpart])
  refine Spec.bind (Spec.weaken (ask_spec (by simp) (by simp)) (fun _ hs => hs) (fun _ _ hs => hs.forget)
    fun _ _ hs => hs) fun txt => ?_
  refine Spec.bind (setOut_spec fun out => ⟨rfl, id, rfl, id⟩) fun _ => ?_
  refine Spec.ite (fun _ => ?_) fun _ => Spec.pure fun _ hs => hunverified hs
  refine Spec.orElse (Spec.bind (ask_spec (by simp) (by simp)) fun again => ?_) fun e => ?_
  · exact Spec.pure fun s hs => hs.weaken ⟨hs.known.1, fun hv => ⟨again, hv, .inr (.inr hs.known.2)⟩⟩ id
  · refine Spec.ite (fun _ => Spec.fail fun _ hs => hs) fun _ => ?_
    exact Spec.ite (fun _ => Spec.pure fun _ hs => hunverified hs) fun _ => Spec.fail fun _ hs => hs

theorem serveMail_spec {found : Option TenantDomain} {part : GraphPart} :
    Spec (Inv run (K.and .verified) clean) (serveMail world run found part) (fun _ => Inv run (K.and .verified) clean)
      fun _ => Inv run (K.and .verified) clean := by
  refine Spec.bind (Q := fun _ => Inv run (K.and .verified) clean) ?_ fun _ => ?_
  · refine Spec.ite (fun _ => Spec.pure fun _ hs => hs) fun _ => ?_
    exact (ask_spec (by simp) (by simp)).post fun _ _ hs => hs.forget
  refine Spec.bind ((ask_spec (by simp) (by simp)).post fun _ _ hs => hs.forget) fun mx => ?_
  refine Spec.bind (setOut_spec fun out => ?_) fun _ => ?_
  · by_cases hmx : mx.isEmpty = true
    · simpa only [hmx, if_true] using ⟨rfl, id, rfl, id⟩
    · simpa only [hmx] using ⟨rfl, id, rfl, id⟩
  refine Spec.bind (setOut_when (c := fun out => out.state = .dnsOk) fun s hs hc => ?_) fun _ => Spec.pure fun _ hs => hs
  have hconfirms : Confirms run s.log s.own.out.state .tenantVerified := hc ▸ .verified hs.known.2
  exact hs.advance hconfirms (by simp)

theorem syncGraph_spec :
    Spec (Inv run K clean) (syncGraph world run) (fun v => Inv run (K.and (.given (v = true) .verified)) clean)
      fun _ => Inv run K clean := by
  refine Spec.bind outcome_spec fun out => ?_
  refine Spec.bind findDomain_spec fun first => ?_
  have hkeep : ∀ {part : GraphPart} {F : Fact} {E : Fault → Run.State → Prop},
      Spec (Inv run F clean) (keepGraph part) (fun _ => Inv run F clean) E :=
    setOut_spec fun out => ⟨rfl, id, rfl, id⟩
  refine Spec.bind (Q := fun r => Inv run (K.and (.given (r.2.verified = true) .verified)) clean) ?_ fun second => ?_
  · refine Spec.ite (fun _ => Spec.pure fun _ hs => hs) fun hv => ?_
    exact (verifyDomain_spec (by simpa using hv)).pre fun _ hs => hs.forget
  refine Spec.ite (fun hv => ?_) fun _ => ?_
  · refine Spec.pre (P := Inv run (K.and .verified) clean) ?_ fun s hs => hs.weaken ⟨hs.known.1, hs.known.2 hv⟩ id
    refine Spec.weaken (Spec.bind serveMail_spec fun part => Spec.bind hkeep fun _ => Spec.pure fun _ hs => hs)
      (fun _ hs => hs) (Q := fun _ => Inv run (K.and .verified) clean) ?_ fun _ _ hs => hs.forget
    exact fun v s hs => hs.weaken ⟨hs.known.1, fun _ => hs.known.2⟩ id
  · refine Spec.bind hkeep fun _ => Spec.pure fun s hs => hs.forget.learn fun hv => absurd hv (by simp)

theorem readAccepted_spec :
    Spec (Inv run K clean) (readAccepted world)
      (fun found => Inv run (K.and (.given (found.isSome = true) (.answered .getAcceptedDomain found))) clean)
      fun _ => Inv run K clean := by
  refine Spec.orElse ((ask_spec (by simp) (by simp)).post fun found s hs => hs.weaken ⟨hs.known.1, fun _ => hs.known.2⟩ id)
    fun e => Spec.ite (fun _ => Spec.pure fun s hs => hs.learn fun hv => ?_) fun _ => Spec.fail fun _ hs => hs
  simp at hv

/-- What an answer shows of the domain's type. -/
theorem typeRead_of_answered {found : Option AcceptedDomain} {log : Log} {t : DomainType}
    (h : found.isSome = true → Answered log .getAcceptedDomain found) (ht : found.bind (·.domainType) = some t) :
    TypeRead log t := by
  cases found with
  | none => cases ht
  | some d => exact ⟨d, ht, h rfl⟩

def Fact.shown (type : Option DomainType) : Fact :=
  ⟨fun log => ∀ t, type = some t → TypeRead log t, fun h t ht => (h t ht).later⟩

theorem keepAccepted_spec {part : AcceptedPart} :
    Spec (Inv run (K.and .visible) clean) (keepAccepted part) (fun _ => Inv run (K.and .visible) clean) E :=
  Spec.change fun _ hs => { hs with visible := fun _ => hs.known.2 }

theorem acceptType_spec {type : Option DomainType} :
    Spec (Inv run (K.and (.shown type)) clean) (acceptType run type) (fun _ => Inv run (K.and (.shown type)) clean) E := by
  refine Spec.bind (setOut_when (c := fun _ => type = some .internalRelay ∨ type = some .authoritative) fun s hs _ => ?_) fun _ =>
    setOut_when (c := fun out => type = some .internalRelay ∧ out.state = .tenantVerified) fun s hs hc => ?_
  · exact { hs with type := fun t heq => hs.known.2 t heq }
  · have hconfirms : Confirms run s.log s.own.out.state .internalRelay := hc.2 ▸ .relayed (hs.known.2 _ hc.1)
    exact hs.advance hconfirms (by simp)

theorem relayDomain_spec :
    Spec (Inv run K clean) (relayDomain world) (fun type => Inv run (K.and (.shown type)) clean)
      fun _ => Inv run K clean := by
  refine Spec.bind ((ask_spec (by simp) (by simp)).post fun _ _ hs => hs.forget) fun _ => ?_
  refine Spec.bind readAccepted_spec fun found => Spec.pure fun s hs => ?_
  exact hs.weaken ⟨hs.known.1, fun t ht => typeRead_of_answered hs.known.2 ht⟩ id

theorem syncAccepted_spec :
    Spec (Inv run K clean) (syncAccepted world run) (fun type => Inv run (K.and (.shown type)) clean)
      fun _ => Inv run K clean := by
  have hnone : ∀ {F : Fact} {s : Run.State}, Inv run F clean s → Inv run (F.and (.shown none)) clean s :=
    fun hs => hs.learn fun t ht => by cases ht
  refine Spec.bind outcome_spec fun out => ?_
  refine Spec.bind readAccepted_spec fun found => ?_
  refine Spec.ite (fun hfound => ?_) fun hfound => ?_
  · refine Spec.bind (Q := fun _ => Inv run K clean)
      (Spec.change fun s hs => hs.forget.agrees ⟨rfl, id, rfl, fun h => by cases h⟩) fun _ => ?_
    exact Spec.bind (setOut_spec fun out => ⟨rfl, id, rfl, id⟩) fun _ => Spec.pure fun _ hs => hnone hs
  have hsome : found.isSome = true := by simpa [Option.isSome_iff_ne_none] using hfound
  -- the domain is visible from here on
  refine Spec.pre (P := Inv run ((K.and (.shown (found.bind (·.domainType)))).and .visible) clean) ?_ fun s hs => ?_
  swap
  · refine (hs.weaken (F := K.and (.shown (found.bind (·.domainType)))) ⟨hs.known.1, fun t ht => ?_⟩ id).learn ?_
    · exact typeRead_of_answered hs.known.2 ht
    · obtain ⟨d, rfl⟩ := Option.isSome_iff_exists.mp hsome
      exact ⟨d, hs.known.2 rfl⟩
  refine Spec.ite (fun hheld => ?_) fun _ => ?_
  · refine Spec.bind keepAccepted_spec fun _ => ?_
    refine Spec.bind (Q := fun _ => Inv run K clean) (Spec.change fun s hs => ?_) fun _ => Spec.pure fun _ hs => hnone hs
    exact { hs.forget.forget with type := fun t ht => hs.known.1.2 t ht }
  refine Spec.bind (Q := fun type => Inv run ((K.and (.shown type)).and .visible) clean) ?_ fun type => ?_
  · refine Spec.ite (fun _ => ?_) fun _ => Spec.pure fun _ hs => hs
    refine Spec.weaken (relayDomain_spec (K := K.and .visible)) (fun _ hs => hs.weaken ⟨hs.known.1.1, hs.known.2⟩ id) (fun t s hs => ?_)
      fun _ _ hs => hs.forget
    exact hs.weaken ⟨⟨hs.known.1.1, hs.known.2⟩, hs.known.1.2⟩ id
  refine Spec.weaken (P := Inv run ((K.and (.shown type)).and .visible) clean)
    (Q := fun t => Inv run (K.and (.shown t)) clean) (E := fun _ => Inv run (K.and (.shown type)) clean) ?_
    (fun _ hs => hs) (fun _ _ hs => hs) fun _ _ hs => hs.forget
  refine Spec.bind keepAccepted_spec fun _ => ?_
  refine Spec.pre (P := Inv run (K.and (.shown type)) clean) ?_ fun _ hs => hs.forget
  exact Spec.bind acceptType_spec fun _ => Spec.pure fun _ hs => hs

/-! ## The outbound connector and DKIM -/

theorem pickOutboundConnector_mem {rows : List OutboundConnector} {name : Option String} {c : OutboundConnector}
    (h : pickOutboundConnector rows name = .ok c) : c ∈ rows := by
  cases name with
  | some name =>
    simp only [pickOutboundConnector] at h
    split at h
    next found hfound =>
      cases h
      exact List.mem_of_find?_eq_some hfound
    next => cases h
  | none =>
    simp only [pickOutboundConnector] at h
    split at h
    next only honly =>
      cases h
      exact (List.mem_filter.mp (honly ▸ List.mem_singleton_self _ : _ ∈ rows.filter _)).1
    next => cases h
    next => cases h

theorem keepConnector_spec {part : ConnectorPart} (hpart : part.ok ≠ some true) :
    Spec (Inv run K clean) (keepConnector part) (fun _ => Inv run K clean) E :=
  Spec.change fun _ hs => { hs with connector := fun h => absurd (by simpa using h) hpart }

theorem concludeConnector_spec {name : String} {connector : OutboundConnector} {addedAt : Option Nat} :
    Spec (Inv run (K.and (.given (connectorHas connector run.domain = true) (.carried run))) clean)
      (concludeConnector run name connector addedAt) (fun _ => Inv run K clean) E := by
  refine Spec.bind (Q := fun _ => Inv run (K.and (.given (connectorHas connector run.domain = true) (.carried run))) clean)
    (Spec.change fun s hs => ?_) fun _ => ?_
  · exact { hs with connector := fun h => hs.known.2 (by simpa using h) }
  refine Spec.bind (setOut_when (c := fun out => connectorHas connector run.domain = true ∧ out.state = .internalRelay)
    fun s hs hc => ?_) fun _ => Spec.pure fun _ hs => hs.forget
  have hconfirms : Confirms run s.log s.own.out.state .connectorReady := hc.2 ▸ .connected (hs.known.2 hc.1)
  exact hs.advance hconfirms (by simp)

theorem addToConnector_spec {rows : List OutboundConnector} {picked : OutboundConnector} {guid : String}
    (hpick : pickOutboundConnector rows run.settings.outboundConnector = .ok picked) (hid : picked.guid = some guid)
    (hnot : ¬connectorHas picked run.domain = true) :
    Spec (Inv run (K.and (.answered .getOutboundConnectors rows)) clean) (addToConnector world picked guid)
      (fun c => Inv run (K.and (.given (connectorHas c run.domain = true) (.carried run))) clean)
      fun _ => Inv run (K.and (.answered .getOutboundConnectors rows)) clean := by
  refine Spec.bind ((ask_spec (by simp) (by simp)).post fun _ _ hs => hs.forget) fun _ => ?_
  refine Spec.bind (Spec.weaken (ask_spec (by simp) (by simp)) (fun _ hs => hs) (fun _ _ hs => hs) fun _ _ hs => hs)
    fun rows' => Spec.pure fun s hs => hs.weaken ⟨hs.known.1.1, fun hhas => ?_⟩ id
  have hrows' : Answered s.log .getOutboundConnectors rows' := hs.known.2
  cases hfind : List.find? (fun c => c.guid == some guid) rows' with
  | none =>
    rw [hfind] at hhas
    exact absurd hhas hnot
  | some c =>
    rw [hfind] at hhas
    have hguid : c.guid = some guid := by simpa using List.find?_some hfind
    exact ⟨rows, rows', picked, c, hs.known.1.2, hpick, hrows', List.mem_of_find?_eq_some hfind, .inr (hguid.trans hid.symm), hhas⟩

theorem syncConnector_spec :
    Spec (Inv run K clean) (syncConnector world run) (fun _ => Inv run K clean) fun _ => Inv run K clean := by
  refine Spec.bind (ask_spec (by simp) (by simp)) fun rows => ?_
  cases hpick : pickOutboundConnector rows run.settings.outboundConnector with
  | error e =>
    exact Spec.pre (Spec.bind (keepConnector_spec (by simp)) fun _ => Spec.pure fun _ hs => hs) fun _ hs => hs.forget
  | ok picked =>
    refine Spec.ite (fun hhas => ?_) fun hnot => ?_
    · refine concludeConnector_spec.pre fun s hs => hs.weaken ⟨hs.known.1, fun _ => ?_⟩ id
      exact ⟨rows, rows, picked, picked, hs.known.2, hpick, hs.known.2, pickOutboundConnector_mem hpick, .inl rfl, hhas⟩
    · cases hid : picked.guid with
      | none =>
        exact Spec.pre (Spec.bind (keepConnector_spec (by simp)) fun _ => Spec.pure fun _ hs => hs) fun _ hs => hs.forget
      | some guid =>
        refine Spec.bind (Spec.weaken (addToConnector_spec hpick hid hnot) (fun _ hs => hs) (fun _ _ hs => hs)
          fun _ _ hs => hs.forget) fun c => concludeConnector_spec

theorem readDkim_spec : Spec (Inv run K clean) (readDkim world) (fun _ => Inv run K clean) fun _ => Inv run K clean :=
  Spec.orElse ((ask_spec (by simp) (by simp)).post fun _ _ hs => hs.forget) fun _ =>
    Spec.ite (fun _ => Spec.pure fun _ hs => hs) fun _ => Spec.fail fun _ hs => hs

theorem makeDkim_spec : Spec (Inv run K clean) (makeDkim world) (fun _ => Inv run K clean) fun _ => Inv run K clean := by
  refine Spec.bind (Spec.orElse ((ask_spec (by simp) (by simp)).post fun _ _ hs => hs.forget) fun _ => ?_) fun _ => readDkim_spec
  exact Spec.ite (fun _ => Spec.pure fun _ hs => hs) fun _ => Spec.fail fun _ hs => hs

theorem enableDkim_spec {config : DkimConfig} :
    Spec (Inv run K clean) (enableDkim world config) (fun _ => Inv run K clean) fun _ => Inv run K clean := by
  refine Spec.orElse (Spec.bind ((ask_spec (by simp) (by simp)).post fun _ _ hs => hs.forget) fun _ =>
    Spec.bind readDkim_spec fun _ => Spec.pure fun _ hs => hs) fun _ => ?_
  refine Spec.ite (fun _ => Spec.fail fun _ hs => hs) fun _ => ?_
  exact Spec.ite (fun _ => Spec.pure fun _ hs => hs) fun _ => Spec.fail fun _ hs => hs

theorem syncDkim_spec :
    Spec (Inv run K clean) (syncDkim world run) (fun _ => Inv run K clean) fun _ => Inv run K clean := by
  refine Spec.bind readDkim_spec fun first => ?_
  refine Spec.bind (Spec.ite (fun _ => Spec.pure fun _ hs => hs) fun _ => makeDkim_spec) fun config => ?_
  cases config with
  | none => exact setOut_spec fun out => ⟨rfl, id, rfl, id⟩
  | some config =>
    refine Spec.bind (setOut_spec fun out => ⟨rfl, id, rfl, id⟩) fun _ => ?_
    refine Spec.bind (Spec.ite (fun _ => Spec.pure fun _ hs => hs) fun _ => enableDkim_spec) fun enabled => ?_
    exact setOut_spec fun out => ⟨rfl, id, rfl, id⟩

/-! ## The recipient mirror -/

/-- A write; while no failed one is known, only one that hides a contact. -/
theorem write_spec {w : ContactWrite} {address : Address} {okCodes : List Code}
    (hw : clean → ∃ a, w = .hideMailContact a) :
    Spec (Inv run K clean) (write world w address okCodes) (fun _ => Inv run K clean) fun _ => Inv run K False := by
  refine Spec.bind setWork_spec fun _ => ?_
  refine Spec.orElse (E := fun f s => (f.throttles = false → f.tenant = true → Inv run K clean s) ∧ Inv run K False s)
    (Spec.bind (Q := fun _ => Inv run K clean) (Spec.ask (fun s _ hs _ => ?_) fun s f hs _ => ⟨fun hf htenant => ?_, ?_⟩) fun _ => Spec.pure fun _ hs => hs) fun f => ?_
  · exact hs.record (by simp) fun _ _ _ _ => rfl
  · -- the log shows a hiding that failed, so nothing is claimed of it
    refine hs.record (by simp) fun _ _ hclean hhides => ?_
    obtain ⟨a, rfl⟩ := hw hclean
    have := hhides _ List.mem_cons_self a rfl f rfl htenant
    simp [hf] at this
  · exact hs.spoil.record (by simp) fun _ _ h => h.elim
  refine Spec.ite (fun _ => Spec.fail fun _ hs => hs.2) fun hthrottles => ?_
  have hthrottles : f.throttles = false := by simpa using hthrottles
  refine Spec.ite (fun htenant => Spec.pure fun _ hs => hs.1 hthrottles ?_) fun _ => ?_
  · exact (Bool.and_eq_true_iff.mp htenant).1
  refine Spec.ite (fun htenant => ?_) fun _ => Spec.fail fun _ hs => hs.2
  refine Spec.bind (Q := fun _ => Inv run K clean) (Spec.change fun s hs => ?_) fun _ => Spec.pure fun _ hs => hs
  exact { hs.1 hthrottles (Bool.and_eq_true_iff.mp htenant).1 with }

theorem ifBudget_spec {m : Run.M Unit} (h : Spec (Inv run K clean) m (fun _ => Inv run K clean) E) :
    Spec (Inv run K clean) (ifBudget m) (fun _ => Inv run K clean) E :=
  Spec.bind worked_spec fun _ => Spec.ite (fun _ => Spec.pure fun _ hs => hs) fun _ => h

theorem hideContact_spec {address : Address} :
    Spec (Inv run K clean) (hideContact world address) (fun _ => Inv run K clean) fun _ => Inv run K False :=
  Spec.bind (write_spec fun _ => ⟨address, rfl⟩) fun _ => Spec.pure fun _ hs => hs

theorem createContact_spec {address : Address} (hclean : ¬clean) :
    Spec (Inv run K clean) (createContact world run address) (fun _ => Inv run K clean) fun _ => Inv run K False := by
  refine Spec.bind (write_spec (absurd · hclean)) fun done => ?_
  cases done with
  | code _ => exact setWork_spec
  | failed => exact Spec.pure fun _ hs => hs
  | ok => exact Spec.bind setWork_spec fun _ => ifBudget_spec hideContact_spec

theorem retargetContact_spec {address : Address} (hclean : ¬clean) :
    Spec (Inv run K clean) (retargetContact world run address) (fun _ => Inv run K clean) fun _ => Inv run K False :=
  Spec.bind (write_spec (absurd · hclean)) fun _ => Spec.ite (fun _ => Spec.pure fun _ hs => hs) fun _ => setWork_spec

theorem removeContact_spec {address : Address} (hclean : ¬clean) :
    Spec (Inv run K clean) (removeContact world address) (fun _ => Inv run K clean) fun _ => Inv run K False :=
  Spec.bind (write_spec (absurd · hclean)) fun _ => Spec.ite (fun _ => Spec.pure fun _ hs => hs) fun _ => setWork_spec

theorem confirmContacts_spec :
    Spec (Inv run K clean) (confirmContacts world run) (fun _ => Inv run K clean) fun _ => Inv run K False := by
  refine Spec.bind worked_spec fun work => Spec.ite (fun _ => Spec.pure fun _ hs => hs) fun _ => ?_
  refine Spec.bind (Spec.weaken (ask_spec (by simp) (by simp)) (fun _ hs => hs) (fun _ _ hs => hs.forget)
    fun _ _ hs => hs.spoil) fun recipients => ?_
  exact Spec.each fun _ _ => setWork_spec

/-- What a plan with nothing to make, move or remove does to the tenant is hide contacts. -/
theorem applyPlan_spec {plan : Plan} {removals : List Address}
    (hclean : clean → plan.create = [] ∧ plan.retarget = [] ∧ removals = []) :
    Spec (Inv run K clean) (applyPlan world run plan removals) (fun _ => Inv run K clean) fun _ => Inv run K False := by
  refine Spec.bind (Spec.each fun a ha => ifBudget_spec (createContact_spec fun h => ?_)) fun _ => ?_
  · exact List.not_mem_nil ((hclean h).1 ▸ ha)
  refine Spec.bind (Spec.each fun a ha => ifBudget_spec (retargetContact_spec fun h => ?_)) fun _ => ?_
  · exact List.not_mem_nil ((hclean h).2.1 ▸ ha)
  refine Spec.bind (Spec.each fun a ha => ifBudget_spec (removeContact_spec fun h => ?_)) fun _ => ?_
  · exact List.not_mem_nil ((hclean h).2.2 ▸ ha)
  exact Spec.bind (Spec.each fun _ _ => ifBudget_spec hideContact_spec) fun _ => confirmContacts_spec

/-- A plan that is complete but for the held contacts has nothing else left. -/
theorem Plan.settled_of_complete {plan : Plan} {shown : Bool}
    (h : plan.complete (heldAliasContacts shown run.row.aliasContactsApprovedAt plan) = true) : plan.Settled run := by
  simp only [Plan.complete, Bool.and_eq_true, List.isEmpty_iff, Option.isNone_iff_eq_none, Bool.not_eq_true',
    List.filter_eq_nil_iff] at h
  obtain ⟨⟨⟨⟨hcreate, hretarget⟩, hremove⟩, hcatchAll⟩, hsuspicious⟩ := h
  refine ⟨hcreate, hretarget, fun a ha => ?_, hcatchAll, hsuspicious⟩
  have hheld : a ∈ heldAliasContacts shown run.row.aliasContactsApprovedAt plan := by simpa using hremove a ha
  unfold heldAliasContacts at hheld
  split at hheld
  next hauth =>
    obtain ⟨-, happroved⟩ := Bool.and_eq_true_iff.mp hauth
    exact ⟨by simpa using (List.mem_filter.mp hheld).2, by simpa using happroved⟩
  next => cases hheld

theorem followMirror_agrees {out : Out} : (followMirror out).Agrees out := by
  unfold followMirror
  dsimp only
  split
  · exact ⟨rfl, id, rfl, id⟩
  split
  · exact ⟨rfl, id, rfl, id⟩
  · exact ⟨rfl, id, rfl, id⟩

theorem workMirror_spec {plan : Plan} {panel : List PanelMailbox} {shown : Bool} {held : List Address}
    (hheld : held = heldAliasContacts shown run.row.aliasContactsApprovedAt plan) :
    Spec (Inv run K True) (workMirror world run plan panel held)
      (fun complete => Inv run (K.and (.given (complete = true) ⟨fun _ => plan.Settled run, id⟩)) (complete = true))
      fun _ => Inv run K False := by
  have hrecord : ∀ {c : Prop} {s : Run.State}, Inv run K c s →
      Inv run K c (recordMirror run plan panel held (plan.remove.filter (!held.contains ·)) (plan.complete held) s) :=
    fun hs => hs.agrees ⟨rfl, id, rfl, id⟩
  refine Spec.pre (P := Inv run K (plan.complete held = true)) ?_ fun _ hs => hs.weaken hs.known fun _ => trivial
  refine Spec.bind setWork_spec fun _ => ?_
  refine Spec.bind (Q := fun _ => Inv run K (plan.complete held = true)) (Spec.andFinally ?_) fun _ => ?_
  · refine Spec.weaken (applyPlan_spec fun hc => ?_) (fun _ hs => hs) (fun _ _ hs => hrecord hs) fun _ _ hs => hrecord hs
    have hsettled := Plan.settled_of_complete (hheld ▸ hc)
    simp only [Plan.complete, Bool.and_eq_true, List.isEmpty_iff] at hc
    exact ⟨hsettled.create, hsettled.retarget, hc.1.1.2⟩
  refine Spec.bind (setOut_spec fun _ => followMirror_agrees) fun _ => ?_
  refine Spec.bind worked_spec fun work => Spec.pure fun s hs => ?_
  have hcomplete : (plan.complete held && work.failed.isEmpty) = true → plan.complete held = true :=
    fun h => (Bool.and_eq_true_iff.mp h).1
  exact hs.weaken ⟨hs.known, fun h => Plan.settled_of_complete (hheld ▸ hcomplete h)⟩ hcomplete

theorem syncMirror_spec :
    Spec (Inv run K True) (syncMirror world run)
      (fun r => Inv run (K.and (.given (r = some true) (.settled run))) (r = some true)) fun _ => Inv run K False := by
  have hask : ∀ {F : Fact} {c : Call}, c ≠ .setAcceptedDomainAuthoritative → (∀ w, c ≠ .writeContact w) →
      Spec (Inv run F True) (ask world c) (fun a => Inv run (F.and (.answered c a)) True) fun _ => Inv run F False :=
    fun hset hwrite => Spec.weaken (ask_spec hset hwrite) (fun _ hs => hs) (fun _ _ hs => hs) fun _ _ hs => hs.spoil
  refine Spec.bind outcome_spec fun out => ?_
  refine Spec.bind (hask (by simp) (by simp)) fun node => ?_
  cases node with
  | unread code message =>
    refine Spec.bind (setOut_spec fun out => ⟨rfl, id, rfl, id⟩) fun _ => Spec.pure fun s hs => ?_
    exact hs.weaken ⟨hs.known.1, fun h => by cases h⟩ fun _ => trivial
  | view mailboxes aliases =>
    refine Spec.weaken (E := fun _ => Inv run (K.and (.answered .nodeView (.view mailboxes aliases))) False)
      (Spec.bind (hask (by simp) (by simp)) fun panel => ?_) (fun _ hs => hs) (fun _ _ hs => hs) fun _ _ hs => hs.forget
    refine Spec.weaken (Spec.bind (hask (by simp) (by simp)) fun recipients => ?_) (fun _ hs => hs) (fun _ _ hs => hs)
      fun _ _ hs => hs.forget
    refine Spec.weaken (P := Inv run (((K.and (.answered .nodeView (.view mailboxes aliases))).and
      (.answered .panelView panel)).and (.answered .getRecipients recipients)) True)
      (Spec.bind (workMirror_spec rfl) fun complete => Spec.pure (Q := fun r => Inv run (K.and
        (.given (r = some true) (.settled run))) (r = some true)) fun s hs => ?_) (fun _ hs => hs) (fun _ _ hs => hs)
      fun _ _ hs => hs.forget
    have hcomplete : some complete = some true → complete = true := Option.some.inj
    refine hs.weaken ⟨hs.known.1.1.1.1, fun h => ?_⟩ hcomplete
    exact ⟨⟨mailboxes, aliases, panel, recipients⟩, hs.known.1.1.1.2, hs.known.1.1.2, hs.known.1.2, hs.known.2 (hcomplete h)⟩

theorem concludeAuthoritative_spec {type : Option DomainType} :
    Spec (Inv run (K.and (.shown type)) clean) (concludeAuthoritative run type) (fun _ => Ended run) E := by
  refine Spec.bind (setOut_spec fun out => ⟨rfl, id, rfl, id⟩) fun _ => Spec.change fun s hs => ?_
  refine ⟨hs.justified, ?_⟩
  by_cases htype : type = some .authoritative
  · by_cases hready : s.own.out.state = .ready
    · have hconfirms : Confirms run s.log s.own.out.state .authoritative := hready ▸ .switched (hs.known.2 _ htype)
      simpa only [htype, hready, if_true, Out.advance_state] using hs.advances.tail hconfirms
    · simpa only [htype, hready, if_true, if_false] using hs.advances
  · simpa only [htype, if_false] using hs.advances

/-- What the mirror step leaves for the last one. -/
def Fact.mirrored (run : Run) (K : Fact) (mirror : Option Bool) (type : Option DomainType) : Fact :=
  ((K.and .verified).and (.given (mirror = some true) (.settled run))).and (.shown type)

theorem syncAuthoritative_spec {mirror : Option Bool} {type : Option DomainType} :
    Spec (Inv run (.mirrored run K mirror type) (mirror = some true)) (syncAuthoritative world run mirror type)
      (fun _ => Ended run) fun _ => Ended run := by
  have hkeep : ∀ {part : AuthoritativePart} {F : Fact} {c : Prop},
      Spec (Inv run F c) (keepAuthoritative part) (fun _ => Ended run) fun _ => Ended run :=
    Spec.post (setOut_spec fun out => ⟨rfl, id, rfl, id⟩) fun _ _ hs => hs.ended
  refine Spec.bind Spec.gets fun out => ?_
  refine Spec.ite (fun _ => ?_) fun hpath => ?_
  · exact (Spec.ite (fun _ => hkeep) fun _ => Spec.pure fun _ hs => hs.ended).pre fun _ hs => hs.2
  refine Spec.ite (fun _ => hkeep.pre fun _ hs => hs.2) fun hhold => ?_
  refine Spec.ite (fun _ => Spec.pure fun _ hs => hs.2.ended) fun hstate => ?_
  refine Spec.ite (fun _ => ?_) fun _ => ?_
  swap
  · refine Spec.pre (P := Inv run (K.and (.shown type)) (mirror = some true)) concludeAuthoritative_spec fun s hs => ?_
    exact hs.2.weaken ⟨hs.2.known.1.1.1, hs.2.known.2⟩ id
  simp only [ne_eq, not_or, not_not, Bool.not_eq_true, Bool.not_eq_false', pathOk, Bool.and_eq_true] at hpath
  obtain ⟨hmirror, -, hvisible, hconnector⟩ := hpath
  have hinplace : ∀ s, (s.own.out = out ∧ Inv run (.mirrored run K mirror type) (mirror = some true) s) →
      HidesAnswered s.log → PathInPlace run s.log := by
    rintro s ⟨rfl, hs⟩ hhides
    refine ⟨hs.known.1.1.2, hs.visible hvisible, hs.connector hconnector, hs.known.1.2 hmirror, hs.written hmirror hhides, ?_⟩
    by_cases hready : s.own.out.state = .ready
    · have hrow : run.row.state = .ready := Advances.ready (hready ▸ hs.advances)
      exact .inl ⟨hrow, by simpa [hready] using hhold⟩
    · have hauth : s.own.out.state = .authoritative := by
        by_contra hne
        exact hstate ⟨hready, fun h => hne h.1⟩
      exact .inr (hs.settled hauth)
  refine Spec.bind (Q := fun _ => Inv run (.mirrored run K mirror type) (mirror = some true)) (Spec.ask (fun s _ hs _ => ?_)
    fun s _ hs _ => ?_) fun _ => ?_
  · exact hs.2.record (fun _ => hinplace s hs) fun w hw => by cases hw
  · exact (hs.2.record (fun _ => hinplace s hs) fun w hw => by cases hw).ended
  refine Spec.bind (Spec.weaken readAccepted_spec (fun _ hs => hs) (fun _ _ hs => hs) fun _ _ hs => hs.ended) fun found => ?_
  refine Spec.pre (P := Inv run (K.and (.shown (found.bind (·.domainType)))) (mirror = some true)) concludeAuthoritative_spec fun s hs =>
    hs.weaken ?_ id
  exact ⟨hs.known.1.1.1.1, fun t ht => typeRead_of_answered hs.known.2 ht⟩

/-! ## The run -/

theorem step_spec {P : Run.State → Prop} {keep : Failure → Sync → Sync} {m : Run.M α} {Q : Option α → Run.State → Prop}
    (h : Spec P m (fun a => Q (some a)) fun _ => Inv run K clean)
    (hkeep : ∀ e (out : Out), ({ out with sync := { keep e out.sync with ok := false } } : Out).Agrees out)
    (hQ : ∀ s, Inv run K clean s → Q none s) : Spec P (step keep m) Q fun _ => Inv run K clean := by
  refine Spec.orElse (Spec.bind h fun a => Spec.pure fun _ hs => hs) fun e => ?_
  refine Spec.ite (fun _ => Spec.fail fun _ hs => hs) fun _ => ?_
  exact Spec.bind (setOut_spec (hkeep _)) fun _ => Spec.pure fun s hs => hQ s hs

theorem step_ended {P : Run.State → Prop} {keep : Failure → Sync → Sync} {m : Run.M α}
    (h : Spec P m (fun _ => Ended run) fun _ => Ended run) :
    Spec P (step keep m) (fun _ => Ended run) fun _ => Ended run := by
  refine Spec.orElse (Spec.bind h fun a => Spec.pure fun _ hs => hs) fun e => ?_
  refine Spec.ite (fun _ => Spec.fail fun _ hs => hs) fun _ => ?_
  exact Spec.bind (Q := fun _ => Ended run) (Spec.change fun _ hs => hs) fun _ => Spec.pure fun _ hs => hs

theorem mirrorSteps_spec {type : DomainType} :
    Spec (Inv run ((K.and .verified).and (.shown (some type))) True) (mirrorSteps world run type) (fun _ => Ended run)
      fun _ => Ended run := by
  refine Spec.bind (Q := fun r => Inv run (((K.and .verified).and (.shown (some type))).and
    (.given (r.join = some true) (.settled run))) (r.join = some true)) ?_ fun mirror => ?_
  · refine Spec.weaken (step_spec syncMirror_spec (fun e out => ⟨rfl, id, rfl, id⟩) fun s hs => ?_) (fun _ hs => hs)
      (fun _ _ hs => hs) fun _ _ hs => hs.ended
    exact hs.weaken ⟨hs.known, fun h => by cases h⟩ fun h => by cases h
  refine Spec.bind Spec.gets fun out => ?_
  refine Spec.bind (step_ended (Spec.pre (syncAuthoritative_spec (K := K)) fun s hs => ?_)) fun _ => Spec.pure fun _ hs => hs
  obtain ⟨rfl, hs⟩ := hs
  refine hs.weaken ⟨⟨hs.known.1.1, hs.known.2⟩, fun t ht => ?_⟩ id
  cases htype : s.own.out.acceptedType with
  | none => exact hs.known.1.2 t (by simpa [htype] using ht)
  | some t' => exact hs.type t (by simpa [htype] using ht)

theorem connectorSteps_spec {type : DomainType} :
    Spec (Inv run ((K.and .verified).and (.shown (some type))) True) (connectorSteps world run type) (fun _ => Ended run)
      fun _ => Ended run := by
  refine Spec.bind outcome_spec fun out => Spec.ite (fun _ => Spec.pure fun _ hs => hs.ended) fun _ => ?_
  refine Spec.bind (Q := fun _ => Inv run ((K.and .verified).and (.shown (some type))) True) ?_ fun _ => ?_
  · refine Spec.weaken (step_spec syncConnector_spec (fun e out => ⟨rfl, fun h => ?_, rfl, id⟩) fun s hs => hs)
      (fun _ hs => hs) (fun _ _ hs => hs) fun _ _ hs => hs.ended
    simp [failConnector] at h
  exact Spec.bind outcome_spec fun out => Spec.ite (fun _ => Spec.pure fun _ hs => hs.ended) fun _ => mirrorSteps_spec

theorem tenantSteps_spec {type : DomainType} :
    Spec (Inv run ((K.and .verified).and (.shown (some type))) True) (tenantSteps world run type) (fun _ => Ended run)
      fun _ => Ended run := by
  refine Spec.bind outcome_spec fun out => Spec.ite (fun _ => Spec.pure fun _ hs => hs.ended) fun _ => ?_
  refine Spec.bind (Q := fun _ => Inv run ((K.and .verified).and (.shown (some type))) True) ?_ fun _ => connectorSteps_spec
  refine Spec.ite (fun _ => ?_) fun _ => Spec.pure fun _ hs => hs
  exact Spec.weaken (step_spec syncDkim_spec (fun e out => ⟨rfl, id, rfl, id⟩) fun s hs => hs) (fun _ hs => hs)
    (fun _ _ hs => hs) fun _ _ hs => hs.ended

theorem stages_spec :
    Spec (Inv run K True) (stages world run) (fun _ => Ended run) fun _ => Ended run := by
  refine Spec.bind (Q := fun v => Inv run (K.and (.given (v = some true) .verified)) True) ?_ fun verified => ?_
  · refine Spec.weaken (step_spec (Q := fun v => Inv run (K.and (.given (v = some true) .verified)) True)
      (Spec.post syncGraph_spec fun v s hs => ?_) (fun e out => ⟨rfl, id, rfl, id⟩) fun s hs => ?_) (fun _ hs => hs)
      (fun _ _ hs => hs) fun _ _ hs => hs.ended
    · exact hs.weaken ⟨hs.known.1, fun h => hs.known.2 (Option.some.inj h)⟩ id
    · exact hs.learn fun h => by cases h
  refine Spec.ite (fun _ => Spec.pure fun _ hs => hs.ended) fun hverified => ?_
  refine Spec.pre (P := Inv run (K.and .verified) True) ?_ fun s hs => hs.weaken ⟨hs.known.1, hs.known.2 (by simpa using hverified)⟩ id
  refine Spec.bind (Q := fun r => Inv run ((K.and .verified).and (.shown r.join)) True) ?_ fun r => ?_
  · refine Spec.weaken (step_spec (Q := fun r => Inv run ((K.and .verified).and (.shown r.join)) True) syncAccepted_spec
      (fun e out => ⟨rfl, id, rfl, fun h => ?_⟩) fun s hs => ?_) (fun _ hs => hs) (fun _ _ hs => hs) fun _ _ hs => hs.ended
    · cases hpart : out.sync.acceptedDomain with
      | none => simp [failAccepted, hpart] at h
      | some part => simpa [failAccepted, hpart] using h
    · exact hs.learn fun t ht => by cases ht
  cases htype : r.join with
  | none => exact Spec.pure fun _ hs => hs.ended
  | some type => exact tenantSteps_spec

theorem syncDomain_spec :
    Spec (Inv run K True) (syncDomain world run) (fun _ => Ended run) fun _ => Ended run := by
  refine Spec.bind (Q := fun _ => Ended run) (Spec.orElse stages_spec fun e => ?_) fun finished => Spec.change fun s hs => ?_
  · exact Spec.bind (Q := fun _ => Ended run) (Spec.change fun _ hs => hs) fun _ => Spec.pure fun _ hs => hs
  · cases finished with
    | true => exact hs
    | false => exact hs

/-- Whatever the world answers: a run makes its domain authoritative only with the path in place, and its state
moves step after listed step. -/
theorem Run.finish_ended : Ended run (run.finish world) := by
  have hstart : Inv run .nothing True { log := [], own := { out := Out.start run } } := by
    refine ⟨trivial, ?_, .refl, id, ?_, ?_, ?_, ?_⟩
    · intro later e earlier heq
      simp at heq
    · intro h
      cases h
    · intro t h
      cases h
    · intro h
      cases h
    · intro _ _ e he
      cases he
  have hspec := (syncDomain_spec : Spec _ (syncDomain world run) _ _) _ hstart
  unfold Run.finish
  cases hrun : syncDomain world run { log := [], own := { out := Out.start run } } with
  | mk result s =>
    cases result with
    | ok _ => exact hspec.1 _ _ hrun
    | error e => exact hspec.2 _ _ hrun

end MailExpert.TenantDomains
