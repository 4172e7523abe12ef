import MailExpert.Lib.TransitionSystem
import MailExpert.TenantDomains.Path
import MailExpert.TenantDomains.Preexisting

/-!
# A domain's runs

Runs read a domain's row, ask the tenant whatever it answers, and write their outcome later, if at all; administrators
change the row in between. Over all of this: `authoritative_in_place` says what a run must have seen before it makes
the domain authoritative, and how the driver moves the row's state; `preexisting_left_alone` says when a domain the
tenant had before the panel keeps its type.
-/

namespace MailExpert.TenantDomains

/-- What administrators do to a row. -/
inductive AdminChange
  | confirmStep (step : DomainState)
  | markReady
  | restart (now : Nat)
  | hold (on : Bool)
  | approveInternalRelay (now : Nat)
  | approveAliasContacts (now : Nat)
  | setDkim (eop : Option Bool)
  deriving DecidableEq, Repr

/-- `MANUAL_STEPS`, and the state each is confirmed from. -/
def manualFrom : DomainState → Option DomainState
  | .nodeConfigured => some .nodeCreated
  | .dnsOk => some .nodeConfigured
  | .tenantVerified => some .dnsOk
  | .internalRelay => some .tenantVerified
  | .connectorReady => some .internalRelay
  | .ready => some .connectorReady
  | .nodeCreated | .authoritative => none

def restartSet (now : Nat) (row : Row) : Row :=
  { row with
    state := .nodeCreated
    steps := []
    tenant := if row.tenantByHand then row.tenant else {}
    internalRelayApprovedAt :=
      if row.tenantSync.isSome || row.acceptedDomainType.isSome then some now else row.internalRelayApprovedAt
    tenantSync := none }

def AdminChange.apply (change : AdminChange) (row : Row) : Row :=
  match change with
  | confirmStep step => if manualFrom step = some row.state then { row with state := step } else row
  | markReady => if row.state.index < DomainState.ready.index then { row with state := .ready } else row
  | restart now => restartSet now row
  | hold on => if row.state = .authoritative then row else { row with holdInternalRelay := on }
  | approveInternalRelay now => { row with internalRelayApprovedAt := some now }
  | approveAliasContacts now => { row with aliasContactsApprovedAt := some now }
  | setDkim eop => { row with dkimEop := eop }

structure Started where
  run : Run
  world : World

def Started.final (f : Started) : Run.State := f.run.finish f.world

structure DomainRuns where
  row : Row
  /-- Runs whose outcome is not written yet. -/
  pending : List Started := []
  /-- All runs. -/
  runs : List Started := []

inductive DomainLabel
  | sync (settings : Settings) (stamp : Nat) (world : World)
  | persist (i : Nat)
  | lose (i : Nat)
  | admin (change : AdminChange)

def domainStep (domain : String) (s : DomainRuns) : DomainLabel → Option DomainRuns
  | .sync settings stamp world =>
    let started : Started := { run := { domain := domain, row := s.row, settings := settings, stamp := stamp }, world := world }
    some { s with pending := started :: s.pending, runs := started :: s.runs }
  | .persist i => s.pending[i]?.map fun f =>
    { s with row := (persistSync s.row f.run.row.state f.final.own.out).2, pending := s.pending.eraseIdx i }
  | .lose i => some { s with pending := s.pending.eraseIdx i }
  | .admin change => some { s with row := change.apply s.row }

/-- A domain, from any row. -/
def domainSystem (domain : String) : TransitionSystem DomainRuns DomainLabel where
  init s := s.pending = [] ∧ s.runs = []
  step := domainStep domain

section Steps

variable {domain : String} {s s' : DomainRuns}

theorem domainStep_runs {l : DomainLabel} (h : domainStep domain s l = some s') :
    (∀ f ∈ s.runs, f ∈ s'.runs) ∧ ∀ f ∈ s'.pending, f ∈ s.pending ∨ f ∈ s'.runs := by
  cases l with
  | sync settings stamp world =>
    cases h
    refine ⟨fun f hf => List.mem_cons_of_mem _ hf, fun f hf => ?_⟩
    rcases List.mem_cons.mp hf with rfl | hf
    · exact .inr List.mem_cons_self
    · exact .inl hf
  | persist i =>
    obtain ⟨f, -, rfl⟩ := Option.map_eq_some_iff.mp h
    exact ⟨fun f hf => hf, fun f hf => .inl (List.mem_of_mem_eraseIdx hf)⟩
  | lose i =>
    cases h
    exact ⟨fun f hf => hf, fun f hf => .inl (List.mem_of_mem_eraseIdx hf)⟩
  | admin change =>
    cases h
    exact ⟨fun f hf => hf, fun f hf => .inl hf⟩

/-- A run that waits to write its outcome is one of the runs. -/
theorem pending_run (h : (domainSystem domain).Reachable s) : ∀ f ∈ s.pending, f ∈ s.runs := by
  refine TransitionSystem.Invariant.reachable (I := fun s => ∀ f ∈ s.pending, f ∈ s.runs) ⟨?_, ?_⟩ h
  · rintro s ⟨hp, -⟩ f hf
    simp [hp] at hf
  · intro s l s' hs _ hstep f hf
    obtain ⟨hruns, hpending⟩ := domainStep_runs hstep
    rcases hpending f hf with hf | hf
    · exact hruns f (hs f hf)
    · exact hf

theorem persistSync_elsewhere {row : Row} {start : DomainState} {result : Out} (h : row.state ≠ start) :
    persistSync row start result = (false, row) := if_neg h

/-- Only an outcome written moves the state, from where its run found it. -/
theorem domainStep_state {l : DomainLabel} (h : domainStep domain s l = some s') (hl : ∀ change, l ≠ .admin change)
    (hmoved : s'.row.state ≠ s.row.state) :
    ∃ f ∈ s.pending, s.row.state = f.run.row.state ∧ s'.row.state = f.final.own.out.state := by
  cases l with
  | sync settings stamp world =>
    cases h
    exact absurd rfl hmoved
  | persist i =>
    obtain ⟨f, hf, rfl⟩ := Option.map_eq_some_iff.mp h
    by_cases hstate : s.row.state = f.run.row.state
    · exact ⟨f, List.mem_of_getElem? hf, hstate, by simp [persistSync, hstate]⟩
    · simp [persistSync_elsewhere hstate] at hmoved
  | lose i =>
    cases h
    exact absurd rfl hmoved
  | admin change => exact absurd rfl (hl change)

/-- Whatever rows, answers and administrators: before a run makes the domain authoritative, and no hiding of a contact
failed in it, it has seen the whole path in place. The driver moves the row's state by listed steps, each confirmed
by a read of the run that takes it, and never to ready; an outcome leaves a row in another state than its run
found as it is. -/
theorem authoritative_in_place (h : (domainSystem domain).Reachable s) :
    (∀ f ∈ s.runs, Justified f.run f.final.log) ∧
    (∀ l s', domainStep domain s l = some s' → (∀ change, l ≠ .admin change) → s'.row.state ≠ s.row.state →
      s'.row.state ≠ .ready ∧ ∃ f ∈ s.runs, Advances f.run f.final.log s.row.state s'.row.state) ∧
    ∀ f ∈ s.pending, s.row.state ≠ f.run.row.state →
      persistSync s.row f.run.row.state f.final.own.out = (false, s.row) := by
  refine ⟨fun f _ => Run.finish_ended.1, fun l s' hstep hl hmoved => ?_, fun f _ hstate => persistSync_elsewhere hstate⟩
  obtain ⟨f, hf, hfrom, hto⟩ := domainStep_state hstep hl hmoved
  have hadvances : Advances f.run f.final.log s.row.state s'.row.state := by
    rw [hfrom, hto]
    exact Run.finish_ended.2
  refine ⟨fun hready => hmoved ?_, f, pending_run h f hf, hadvances⟩
  rw [hready] at hadvances
  exact hready.trans hadvances.ready.symm

end Steps

section Hiding

def anna : Address := { name := "anna", domain := "example.org" }

/-- A tenant with everything in place, but for a contact it shows in the address lists; `hidden` is its answer to
hiding it. It shows the domain as Internal Relay until it is made Authoritative. -/
def settledTenant (hidden : Except Fault Unit) : World := fun n c =>
  match c with
  | .getDomain => .ok (some { isVerified := true, supportedServices := ["Email"] })
  | .getServiceRecords => .ok ["mx.example.org"]
  | .getAcceptedDomain => .ok (some { domainType := some (if n ≤ 8 then .internalRelay else .authoritative) })
  | .getOutboundConnectors => .ok [{
      name := some "node", identity := none, guid := none, onPremises := true, enabled := true, allAcceptedDomains := false,
      recipientDomains := ["example.org"] }]
  | .nodeView => .ok (.view [{ email := anna, state := 1 }] [])
  | .panelView => .ok [{ email := anna, deleting := false }]
  | .getRecipients => .ok [{ mailContact := true, primary := some anna, emailAddresses := [], external := some anna, hidden := false }]
  | .writeContact _ => hidden
  | .setAcceptedDomainAuthoritative => .ok ()
  | _ => .error { tenant := true, code := .other "exo_failed", message := "", status := none, retryAfterMs := none }

def readyRow : Row := { state := .ready, holdInternalRelay := false }

def plainSettings : Settings := { dkimEop := false, outboundConnector := none, dbebExternalDomain := none }

def refused : Fault := { tenant := true, code := .other "exo_failed", message := "", status := none, retryAfterMs := none }

def readyRun (hidden : Except Fault Unit) : Started where
  run := { domain := "example.org", row := readyRow, settings := plainSettings, stamp := 0 }
  world := settledTenant hidden

def afterReadyRun (hidden : Except Fault Unit) : DomainRuns :=
  { row := readyRow, pending := [readyRun hidden], runs := [readyRun hidden] }

theorem afterReadyRun_reachable {hidden : Except Fault Unit} : (domainSystem "example.org").Reachable (afterReadyRun hidden) :=
  ⟨{ row := readyRow }, ⟨rfl, rfl⟩, .tail (l := .sync plainSettings 0 (settledTenant hidden)) .refl trivial rfl⟩

theorem authoritative_in_place_switched :
    Asks (readyRun (.ok ())).final.log .setAcceptedDomainAuthoritative ∧
      Justified (readyRun (.ok ())).run (readyRun (.ok ())).final.log :=
  ⟨asks_iff.mpr (by decide), (authoritative_in_place afterReadyRun_reachable).1 _ List.mem_cons_self⟩

/-- A call of the log, with what came before it. -/
theorem log_split {log : Log} {k : Nat} {c : Call} (h : (log.map (·.call))[k]? = some c) :
    ∃ e, log = log.take k ++ e :: log.drop (k + 1) ∧ e.call = c := by
  rw [List.getElem?_map, Option.map_eq_some_iff] at h
  obtain ⟨e, he, hcall⟩ := h
  obtain ⟨hk, rfl⟩ := List.getElem?_eq_some_iff.mp he
  exact ⟨_, by rw [← List.drop_eq_getElem_cons hk, List.take_append_drop], hcall⟩

/-- A contact that the tenant refuses to hide does not keep the domain from being made authoritative. -/
theorem authoritative_despite_failed_write :
    ¬∀ s, (domainSystem "example.org").Reachable s → ∀ f ∈ s.runs, ∀ later e earlier, f.final.log = later ++ e :: earlier →
      e.call = .setAcceptedDomainAuthoritative → PathInPlace f.run earlier := by
  intro hall
  have hset : ((readyRun (.error refused)).final.log.map (·.call))[1]? = some .setAcceptedDomainAuthoritative := by decide
  obtain ⟨e, hsplit, he⟩ := log_split hset
  have hpath := hall _ afterReadyRun_reachable _ List.mem_cons_self _ e _ hsplit he
  have hfailed : ((readyRun (.error refused)).final.log.drop 2).any (fun e =>
      decide (e.call = .writeContact (.hideMailContact anna)) && e.error?.isSome) = true := by decide
  obtain ⟨w, hw, hcall⟩ := List.any_eq_true.mp hfailed
  simp only [Bool.and_eq_true, decide_eq_true_eq] at hcall
  simp [hpath.written w hw _ hcall.1] at hcall

end Hiding

/-! ## A domain the tenant had before -/

/-- Without an approval, a run meets a domain that was there first, and no answer that costs the flag. -/
def SparesFlag (domain : String) (s : DomainRuns) : DomainLabel → Prop
  | .sync settings stamp world =>
    let run : Run := { domain := domain, row := s.row, settings := settings, stamp := stamp }
    s.row.internalRelayApprovedAt = none → WasThere world ∧ KeepsFlag run.knows (run.finish world).log
  | _ => True

/-- What the row's part of Graph must be like: there is none, or the flag is set. -/
def FlagStays (sync : Option Sync) : Prop :=
  sync.bind (·.graph) = none ∨ (sync.bind (·.graph)).any (·.preexisting) = true

structure FlagInv (s : DomainRuns) : Prop where
  row : s.row.internalRelayApprovedAt = none → FlagStays s.row.tenantSync
  pending : ∀ f ∈ s.pending, s.row.internalRelayApprovedAt = none → FlagStays (some f.final.own.out.sync)
  runs : ∀ f ∈ s.runs, f.run.row.internalRelayApprovedAt = none → ¬Asks f.final.log .setAcceptedDomainInternalRelay

theorem AdminChange.apply_flag {change : AdminChange} {row : Row}
    (hrow : row.internalRelayApprovedAt = none → FlagStays row.tenantSync)
    (happroval : (change.apply row).internalRelayApprovedAt = none) :
    row.internalRelayApprovedAt = none ∧ FlagStays (change.apply row).tenantSync := by
  cases change with
  | confirmStep step =>
    simp only [apply] at happroval ⊢
    split at happroval
    next h => exact ⟨happroval, by simpa only [h, if_true] using hrow happroval⟩
    next h => exact ⟨happroval, by simpa only [h, if_false] using hrow happroval⟩
  | markReady =>
    simp only [apply] at happroval ⊢
    split at happroval
    next h => exact ⟨happroval, by simpa only [h, if_true] using hrow happroval⟩
    next h => exact ⟨happroval, by simpa only [h, if_false] using hrow happroval⟩
  | restart now =>
    simp only [apply, restartSet] at happroval ⊢
    split at happroval
    · cases happroval
    · exact ⟨happroval, .inl rfl⟩
  | hold on =>
    simp only [apply] at happroval ⊢
    split at happroval
    next h => exact ⟨happroval, by simpa only [h, if_true] using hrow happroval⟩
    next h => exact ⟨happroval, by simpa only [h, if_false] using hrow happroval⟩
  | approveInternalRelay now => cases happroval
  | approveAliasContacts now => exact ⟨happroval, hrow happroval⟩
  | setDkim eop => exact ⟨happroval, hrow happroval⟩

theorem FlagInv.step {domain : String} {s s' : DomainRuns} {l : DomainLabel} (h : FlagInv s) (hg : SparesFlag domain s l)
    (hstep : domainStep domain s l = some s') : FlagInv s' := by
  cases l with
  | sync settings stamp world =>
    cases hstep
    have hkept : s.row.internalRelayApprovedAt = none → FlagKept (Run.finish world
        { domain := domain, row := s.row, settings := settings, stamp := stamp }) := fun happroval => by
      obtain ⟨hworld, hkeeps⟩ := hg happroval
      exact Run.finish_kept hworld (h.row happroval) happroval hkeeps
    refine ⟨h.row, fun f hf happroval => ?_, fun f hf happroval => ?_⟩
    · rcases List.mem_cons.mp hf with rfl | hf
      · exact (hkept happroval).flag
      · exact h.pending f hf happroval
    · rcases List.mem_cons.mp hf with rfl | hf
      · exact (hkept happroval).left
      · exact h.runs f hf happroval
  | persist i =>
    obtain ⟨f, hf, rfl⟩ := Option.map_eq_some_iff.mp hstep
    have hmem := List.mem_of_getElem? hf
    have hrow : (persistSync s.row f.run.row.state f.final.own.out).2.internalRelayApprovedAt =
        s.row.internalRelayApprovedAt := by
      unfold persistSync
      split
      · rfl
      · rfl
    refine ⟨fun happroval => ?_, fun g hg happroval => ?_, h.runs⟩
    · have happroval : s.row.internalRelayApprovedAt = none := hrow ▸ happroval
      unfold persistSync
      split
      · exact h.pending f hmem happroval
      · exact h.row happroval
    · exact h.pending g (List.mem_of_mem_eraseIdx hg) (hrow ▸ happroval)
  | lose i =>
    cases hstep
    exact ⟨h.row, fun f hf => h.pending f (List.mem_of_mem_eraseIdx hf), h.runs⟩
  | admin change =>
    cases hstep
    refine ⟨fun happroval => (AdminChange.apply_flag h.row happroval).2, fun f hf happroval => ?_, h.runs⟩
    exact h.pending f hf (AdminChange.apply_flag h.row happroval).1

/-- A domain that was in the tenant as Authoritative before the panel's first run, and that no run adds: as long as no
answer to Graph costs the flag, no run changes it to Internal Relay that found the row without an approval. -/
theorem preexisting_left_alone {domain : String} {s₀ s : DomainRuns} (hinit : (domainSystem domain).init s₀)
    (hfirst : s₀.row.tenantSync = none) (h : (domainSystem domain).Run (SparesFlag domain) s₀ s) :
    ∀ f ∈ s.runs, f.run.row.internalRelayApprovedAt = none → ¬Asks f.final.log .setAcceptedDomainInternalRelay := by
  have hinv : FlagInv s := by
    induction h with
    | refl =>
      refine ⟨fun _ => .inl (by simp [hfirst]), fun f hf => ?_, fun f hf => ?_⟩
      · simp [hinit.1] at hf
      · simp [hinit.2] at hf
    | tail _ hg hstep ih => exact ih.step hg hstep
  exact hinv.runs


section Fails

/-- A tenant that had the domain before; `domains` is Graph's answer about it. -/
def earlierTenant (domains : Except Fault (Option TenantDomain)) : World := fun _ c =>
  match c with
  | .getDomain => domains
  | .getServiceRecords => .ok ["mx.example.org"]
  | .getAcceptedDomain => .ok (some { domainType := some .authoritative })
  | .setAcceptedDomainInternalRelay => .ok ()
  | _ => .error refused

theorem earlierTenant_wasThere {domains : Except Fault (Option TenantDomain)} : WasThere (earlierTenant domains) := by
  refine ⟨fun n added h => ?_, fun n found h => .inl ?_⟩
  · cases h
  · cases h
    rfl

def graphFailed : Fault := { tenant := true, code := .other "graph_failed", message := "", status := some 500, retryAfterMs := none }

def foundDomain : Option TenantDomain := some { isVerified := true, supportedServices := ["Email"] }

/-- A run without an approval, in a tenant that had the domain before. -/
def MeetsDomain (s : DomainRuns) : DomainLabel → Prop
  | .sync _ _ world => s.row.internalRelayApprovedAt = none → WasThere world
  | _ => True

def newRow : DomainRuns := { row := { state := .nodeCreated } }

def firstRun (domains : Except Fault (Option TenantDomain)) : Started where
  run := { domain := "example.org", row := newRow.row, settings := plainSettings, stamp := 0 }
  world := earlierTenant domains

def afterFirstRun (domains : Except Fault (Option TenantDomain)) : DomainRuns :=
  { newRow with pending := [firstRun domains], runs := [firstRun domains] }

/-- Graph fails in the first run, and the second one changes the domain to Internal Relay. -/
theorem preexisting_taken_over :
    ¬∀ s₀ s, (domainSystem "example.org").init s₀ → s₀.row.tenantSync = none →
      (domainSystem "example.org").Run MeetsDomain s₀ s → ∀ f ∈ s.runs, f.run.row.internalRelayApprovedAt = none →
      f.run.row.state ≠ .authoritative → ¬Asks f.final.log .setAcceptedDomainInternalRelay := by
  intro hall
  have hsync : ∀ {s : DomainRuns} {stamp : Nat} {domains : Except Fault (Option TenantDomain)},
      MeetsDomain s (.sync plainSettings stamp (earlierTenant domains)) := fun _ => earlierTenant_wasThere
  have hpersist : ∀ {s : DomainRuns} {i : Nat}, MeetsDomain s (.persist i) := trivial
  have hfirst : (domainSystem "example.org").Run MeetsDomain newRow (afterFirstRun (.error graphFailed)) :=
    .tail (l := .sync plainSettings 0 (earlierTenant (.error graphFailed))) .refl hsync rfl
  have hwritten : (domainSystem "example.org").Run MeetsDomain newRow _ := .tail (l := .persist 0) hfirst hpersist rfl
  have hsecond : (domainSystem "example.org").Run MeetsDomain newRow _ :=
    .tail (l := .sync plainSettings 1 (earlierTenant (.ok foundDomain))) hwritten hsync rfl
  refine hall newRow _ ⟨rfl, rfl⟩ rfl hsecond _ List.mem_cons_self ?_ ?_ (asks_iff.mpr ?_)
  · decide
  · decide
  · decide

/-- Found in its first run, the domain is left alone. -/
theorem preexisting_left_alone_found : (afterFirstRun (.ok foundDomain)).runs.length = 1 ∧
    ∀ f ∈ (afterFirstRun (.ok foundDomain)).runs, f.run.row.internalRelayApprovedAt = none →
      ¬Asks f.final.log .setAcceptedDomainInternalRelay := by
  refine ⟨rfl, @preexisting_left_alone "example.org" newRow _ ⟨rfl, rfl⟩ rfl ?_⟩
  refine .tail (l := .sync plainSettings 0 (earlierTenant (.ok foundDomain))) .refl (fun _ => ⟨earlierTenant_wasThere, ?_⟩) rfl
  refine KeepsFlag.of_all fun e he earlier => ?_
  have hlog : e ∈ ([⟨.getAcceptedDomain, .ok (some { domainType := some .authoritative })⟩,
      ⟨.getServiceRecords, .ok ["mx.example.org"]⟩, ⟨.getDomain, .ok foundDomain⟩] : List Event) := he
  simp only [List.mem_cons, List.not_mem_nil, or_false] at hlog
  rcases hlog with rfl | rfl | rfl
  · trivial
  · trivial
  · exact fun _ => rfl

end Fails

end MailExpert.TenantDomains
