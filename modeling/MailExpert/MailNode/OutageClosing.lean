import MailExpert.AccessSync.Reconcile
import MailExpert.MailNode.OutageWindows

/-!
# Windows that an administrator closes

`closeOutage` and `changeOutage` of `services/mailNode/outageActions.js` for an actor of `services/actor.js`, among the checks. `recordCheck`
opens the window that ended last again while it carries no user in `closed_by`.
-/

namespace MailExpert.OutageClosing

open Outages

structure Actor where
  userId : Option Nat
  via : Option String := none
deriving DecidableEq, Repr

/-- An administrator who is not disabled. -/
structure Admin where
  id : Nat
  email : String
  username : String
deriving DecidableEq, Repr

def routeActor (userId : Nat) : Actor := { userId := some userId }

def resolveCliActor (toLowerCase : String → String) (admins : List Admin) (asEmail : Option String) : Except String Actor :=
  match asEmail with
  | none => .ok { userId := none, via := some "cli" }
  | some asEmail =>
    let email := toLowerCase (AccessSync.trim asEmail)
    if email = "" then .error "admin_not_found"
    else match admins.filter fun admin => toLowerCase admin.email = email || toLowerCase admin.username = email with
      | [admin] => .ok { userId := some admin.id, via := some "cli" }
      | _ => .error "admin_not_found"

/-- Who asks: a user of the panel, or the panel CLI with or without `--as`. -/
inductive Caller
  | panel (userId : Nat)
  | cli (asEmail : Option String)
deriving DecidableEq, Repr

def Caller.actor (toLowerCase : String → String) (admins : List Admin) : Caller → Except String Actor
  | .panel userId => .ok (routeActor userId)
  | .cli asEmail => resolveCliActor toLowerCase admins asEmail

def MAX_AHEAD_MS : Int := 31 * 24 * 60 * 60 * 1000

/-- The fields of a change. A time that is sent may not be one. -/
structure Body where
  startedAt : Option (Option Int) := none
  endedAt : Option (Option Int) := none
  reason : Option String := none
deriving DecidableEq, Repr

/-- `parseTime`, not too far ahead. -/
def parseTime (now : Int) (error : String) : Option (Option Int) → Except String (Option Int)
  | none => .ok none
  | some none => .error error
  | some (some time) => if time > now + MAX_AHEAD_MS then .error error else .ok (some time)

def parseReason : Option String → Except String (Option String)
  | none => .ok none
  | some reason =>
    let reason := AccessSync.trim reason
    if reason = "" then .error "outage_reason_required"
    else if AccessSync.units reason.toList > 500 then .error "outage_reason_too_long"
    else .ok (some reason)

/-- `parseOutageInput` of a change. -/
def parseOutageInput (body : Body) (now : Int) : Except String OutageValues := do
  let startedAt ← parseTime now "outage_start_invalid" body.startedAt
  let endedAt ← parseTime now "outage_end_invalid" body.endedAt
  if startedAt.any fun start => endedAt.any (· < start) then throw "outage_end_before_start"
  return { startedAt, endedAt, reason := ← parseReason body.reason }

def changeOutage (outages : OutageTable) (id : Nat) (body : Body) (actor : Actor) (now : Int) : Except String OutageTable := do
  let values ← parseOutageInput body now
  if values.reason.isNone then throw "outage_reason_required"
  updateOutage outages id values actor.userId

def closing (body : Body) (now : Int) : Body := { endedAt := body.endedAt <|> some (some now), reason := body.reason }

def closeOutage (outages : OutageTable) (id : Nat) (body : Body) (actor : Actor) (now : Int) : Except String OutageTable := do
  let some current := outages.lookup id | throw "outage_not_found"
  if current.ended_at.isSome then throw "outage_already_closed"
  updateOutage outages id (← parseOutageInput (closing body now) now) actor.userId

inductive Closer
  | check | admin
deriving DecidableEq, Repr

/-- The node's windows, and who set the end of a window last: history. -/
structure State where
  node : Outages.State
  closer : Table Nat Closer := ∅

inductive Label
  | check (check : Check) (now : Int) (previous : Option (Nat × Outage))
  | close (id : Nat) (body : Body) (caller : Caller) (now : Int)
  | change (id : Nat) (body : Body) (caller : Caller) (now : Int)

variable (toLowerCase : String → String) (admins : List Admin)

/-- What is left of a change by an administrator, who is refused in the case of an error. -/
def State.changed (s : State) (id : Nat) (setsEnd : Bool) (now : Int) : Except String OutageTable → State
  | .error _ => { s with node := { s.node with clock := some now } }
  | .ok outages => {
      node := { s.node with outages, clock := some now }
      closer := if setsEnd then s.closer.insert id .admin else s.closer }

def State.ended (s : State) (check : Check) : State :=
  match check.result, openDetected s.node.outages with
  | .good, some (id, _) => { s with closer := s.closer.insert id .check }
  | _, _ => s

/-- The clock does not run back. -/
def step (s : State) : Label → Option State
  | .check check now previous => (Outages.step s.node (.check check now previous)).map fun node => { s.ended check with node }
  | .close id body caller now =>
    if s.node.clock.all (· ≤ now) then
      some (s.changed id true now (caller.actor toLowerCase admins >>= fun actor => closeOutage s.node.outages id body actor now))
    else none
  | .change id body caller now =>
    if s.node.clock.all (· ≤ now) then
      some (s.changed id body.endedAt.isSome now
        (caller.actor toLowerCase admins >>= fun actor => changeOutage s.node.outages id body actor now))
    else none

/-- No window was detected yet, and no check was kept. -/
def system : TransitionSystem State Label where
  init s := Outages.system.init s.node ∧ s.closer = ∅
  step := step toLowerCase admins

/-- A check opens again no window but one that a good check closed. -/
def ReopensOwn (s : State) : Prop := ∀ check now previous s', step toLowerCase admins s (.check check now previous) = some s' →
  ∀ id row row', s.node.outages.lookup id = some row → row.ended_at.isSome = true →
    s'.node.outages.lookup id = some row' → row'.ended_at = none → s.closer.lookup id = some .check

def Caller.named (caller : Caller) : Bool := match caller.actor toLowerCase admins with
  | .ok actor => actor.userId.isSome
  | .error _ => true

/-- An administrator who ends a detected window has a user id, and the window is open or was ended by such an administrator before. -/
def named (s : State) : Label → Bool
  | .check _ _ _ => true
  | .close id _ caller _ => (s.node.outages.lookup id).all fun row => row.source = .manual || row.ended_at.isSome || caller.named toLowerCase admins
  | .change id body caller _ => body.endedAt.isNone || (s.node.outages.lookup id).all fun row =>
      row.source = .manual || if row.ended_at.isSome then row.closed_by.isSome else caller.named toLowerCase admins

variable {s s' : State} {node node' : Outages.State} {check : Check} {now : Int} {previous : Option (Nat × Outage)} {id : Nat}
  {row row' : Outage} {outages : OutageTable} {values : OutageValues} {userId : Option Nat} {body : Body} {actor : Actor} {caller : Caller}
  {setsEnd : Bool} {k : Nat}

/-- What a check makes of a window. -/
inductive Checked (node node' : Outages.State) (check : Check) (id : Nat) (row' : Outage) : Prop
  | kept (row : Outage) : node.outages.lookup id = some row → row'.source = row.source → row'.ended_at = row.ended_at →
    row'.closed_by = row.closed_by → Checked node node' check id row'
  | ended (row : Outage) : check.result = .good → openDetected node.outages = some (id, row) → row'.ended_at.isSome = true →
    Checked node node' check id row'
  | reopened (row : Outage) : node.outages.lookup id = some row → row.source = .detected → row.ended_at.isSome = true →
    row.closed_by = none → row'.ended_at = none → Checked node node' check id row'
  | opened : id = node.nextId → node'.nextId = node.nextId + 1 → row'.ended_at = none → Checked node node' check id row'

theorem Checked.same (h : node.outages.lookup id = some row) : Checked node node' check id row := .kept row h rfl rfl rfl

theorem Checked.modify {f : Outage → Outage} (h : (node.outages.modify k f).lookup id = some row')
    (hsource : ∀ row, (f row).source = row.source) (hended : ∀ row, (f row).ended_at = row.ended_at)
    (hclosed : ∀ row, (f row).closed_by = row.closed_by) : Checked node node' check id row' := by
  rw [Table.lookup_modify] at h
  split at h
  next heq =>
    subst heq
    obtain ⟨row, hrow, rfl⟩ := Option.map_eq_some_iff.mp h
    exact .kept row hrow (hsource row) (hended row) (hclosed row)
  next => exact .same h

theorem openWindow_checked {state : NodeState} (hnext : node'.nextId = node.nextId + 1)
    (hprevious : lastClosedDetected node.outages previous = true)
    (h : (openWindow node.outages node.nextId check state now previous).1.lookup id = some row') : Checked node node' check id row' := by
  unfold openWindow at h
  dsimp only at h
  split at h
  next _ k row hreopen =>
    obtain ⟨rfl, hopens⟩ := Option.filter_eq_some_iff.mp hreopen
    simp only [Bool.and_eq_true, Option.isNone_iff_eq_none] at hopens
    obtain ⟨hrow, hdetected, ended, hended, -⟩ := lastClosedDetected_some hprevious
    rw [Table.lookup_modify] at h
    split at h
    next heq =>
      subst heq
      rw [hrow] at h
      cases h
      exact .reopened row hrow hdetected (by rw [hended]; rfl) hopens.1 rfl
    next => exact .same h
  next =>
    split at h
    · exact .same h
    · dsimp only at h
      rw [Table.lookup_insert'] at h
      split at h
      next heq =>
        cases h
        exact .opened heq hnext rfl
      next => exact .same h

theorem check_cases (h : Outages.step node (.check check now previous) = some node') :
    node.nextId ≤ node'.nextId ∧ ∀ id row', node'.outages.lookup id = some row' → Checked node node' check id row' := by
  change (if _ ∧ _ ∧ lastClosedDetected node.outages previous then some (recordCheck node check now previous).1 else none) = _ at h
  split at h
  next hstep =>
    obtain ⟨-, -, hprevious⟩ := hstep
    cases h
    unfold recordCheck
    dsimp only
    split
    next k row hgood hopen =>
      refine ⟨le_rfl, fun id row' h => ?_⟩
      dsimp only at h
      rw [Table.lookup_modify] at h
      split at h
      next heq =>
        subst heq
        obtain ⟨_, -, rfl⟩ := Option.map_eq_some_iff.mp h
        exact .ended row hgood hopen rfl
      next => exact .same h
    next => exact ⟨le_rfl, fun id row' h => .same h⟩
    next k row hfailed hopen => exact ⟨le_rfl, fun id row' h => .modify h (fun _ => rfl) (fun _ => rfl) fun _ => rfl⟩
    next hfailed hnone =>
      split
      · exact ⟨le_rfl, fun id row' h => .same h⟩
      · exact ⟨Nat.le_succ _, fun id row' h => openWindow_checked rfl hprevious h⟩
    next => exact ⟨le_rfl, fun id row' h => .same h⟩
  next => cases h

/-! ## A change by an administrator -/

theorem parseTime_isSome {error : String} {sent : Option (Option Int)} {time : Option Int} (h : parseTime now error sent = .ok time) :
    time.isSome = sent.isSome := by
  unfold parseTime at h
  split at h
  · cases h
    rfl
  · cases h
  · split at h
    · cases h
    · cases h
      rfl

theorem parseOutageInput_endedAt (h : parseOutageInput body now = .ok values) : values.endedAt.isSome = body.endedAt.isSome := by
  unfold parseOutageInput at h
  cases hstart : parseTime now "outage_start_invalid" body.startedAt with
  | error e =>
    rw [hstart] at h
    cases h
  | ok startedAt =>
    rw [hstart] at h
    cases hend : parseTime now "outage_end_invalid" body.endedAt with
    | error e =>
      rw [hend] at h
      cases h
    | ok endedAt =>
      rw [hend] at h
      change (if (startedAt.any fun start => endedAt.any (· < start)) = true then .error "outage_end_before_start"
        else (do return { startedAt, endedAt, reason := ← parseReason body.reason } : Except String OutageValues)) = .ok values at h
      split at h
      · cases h
      · cases hreason : parseReason body.reason with
        | error e =>
          rw [hreason] at h
          cases h
        | ok reason =>
          rw [hreason] at h
          cases h
          exact parseTime_isSome hend

theorem updateOutage_cases (h : updateOutage node.outages id values userId = .ok outages) : ∃ current,
    node.outages.lookup id = some current ∧ ∀ k row', outages.lookup k = some row' → k ≠ id ∧ node.outages.lookup k = some row' ∨
      k = id ∧ row'.source = current.source ∧ row'.ended_at = (values.endedAt <|> current.ended_at) ∧
        row'.closed_by = if current.ended_at.isNone && row'.ended_at.isSome then userId else current.closed_by := by
  unfold updateOutage at h
  split at h
  · cases h
  next current hcurrent =>
    dsimp only at h
    split at h
    · cases h
    · cases h
      refine ⟨current, hcurrent, fun k row' hrow' => ?_⟩
      rw [Table.lookup_modify] at hrow'
      split at hrow'
      next heq =>
        obtain ⟨row, hrow, rfl⟩ := Option.map_eq_some_iff.mp hrow'
        rw [hcurrent] at hrow
        cases hrow
        exact .inr ⟨heq, rfl, rfl, rfl⟩
      next hne => exact .inl ⟨hne, hrow'⟩

theorem closeOutage_ok (h : closeOutage node.outages id body actor now = .ok outages) : ∃ current values,
    node.outages.lookup id = some current ∧ current.ended_at = none ∧ values.endedAt.isSome = true ∧
      updateOutage node.outages id values actor.userId = .ok outages := by
  unfold closeOutage at h
  cases hcurrent : node.outages.lookup id with
  | none =>
    rw [hcurrent] at h
    cases h
  | some current =>
    rw [hcurrent] at h
    cases hended : current.ended_at with
    | some _ =>
      dsimp only at h
      rw [hended] at h
      cases h
    | none =>
      dsimp only at h
      rw [hended] at h
      cases hparse : parseOutageInput (closing body now) now with
      | error e =>
        rw [hparse] at h
        cases h
      | ok values =>
        rw [hparse] at h
        refine ⟨current, values, rfl, hended, ?_, h⟩
        rw [parseOutageInput_endedAt hparse]
        cases hsent : body.endedAt <;> simp [closing, hsent]

theorem changeOutage_ok (h : changeOutage node.outages id body actor now = .ok outages) : ∃ values,
    values.endedAt.isSome = body.endedAt.isSome ∧ updateOutage node.outages id values actor.userId = .ok outages := by
  unfold changeOutage at h
  cases hparse : parseOutageInput body now with
  | error e =>
    rw [hparse] at h
    cases h
  | ok values =>
    rw [hparse] at h
    cases hreason : values.reason with
    | none =>
      change (if values.reason.isNone = true then Except.error "outage_reason_required"
        else updateOutage node.outages id values actor.userId) = _ at h
      rw [hreason] at h
      cases h
    | some reason =>
      change (if values.reason.isNone = true then Except.error "outage_reason_required"
        else updateOutage node.outages id values actor.userId) = _ at h
      rw [hreason] at h
      exact ⟨values, parseOutageInput_endedAt hparse, h⟩

/-! ## The windows without a closer -/

/-- A detected window that ended and carries no user was ended by a good check. -/
structure Marked (s : State) : Prop where
  fresh : ∀ id row, s.node.outages.lookup id = some row → id < s.node.nextId
  marked : ∀ id row, s.node.outages.lookup id = some row → row.source = .detected → row.ended_at.isSome = true → row.closed_by = none →
    s.closer.lookup id = some .check

theorem Marked.checked (h : Marked s) (hstep : Outages.step s.node (.check check now previous) = some node) :
    Marked { s.ended check with node } := by
  obtain ⟨hnext, hcases⟩ := check_cases hstep
  have hcloser {k : Nat} (hk : s.closer.lookup k = some .check) : (s.ended check).closer.lookup k = some .check := by
    unfold State.ended
    split
    · dsimp only
      rw [Table.lookup_insert']
      split
      · rfl
      · exact hk
    · exact hk
  refine ⟨fun id row' hrow' => ?_, fun id row' hrow' hdetected hended hclosed => ?_⟩
  · cases hcases id row' hrow' with
    | kept row hrow => exact (h.fresh id row hrow).trans_le hnext
    | ended row _ hopen => exact (h.fresh id row (openDetected_some hopen).1).trans_le hnext
    | reopened row hrow => exact (h.fresh id row hrow).trans_le hnext
    | opened heq hsucc =>
      rw [heq, hsucc]
      exact Nat.lt_succ_self _
  · cases hcases id row' hrow' with
    | kept row hrow hsource hend hby => exact hcloser (h.marked id row hrow (hsource ▸ hdetected) (hend ▸ hended) (hby ▸ hclosed))
    | ended row hgood hopen =>
      change (s.ended check).closer.lookup id = _
      rw [State.ended, hgood, hopen]
      exact AList.lookup_insert _
    | reopened row _ _ _ _ hnone =>
      rw [hnone] at hended
      cases hended
    | opened _ _ hnone =>
      rw [hnone] at hended
      cases hended

theorem Marked.update (h : Marked s) (hupdate : updateOutage s.node.outages id values userId = .ok outages)
    (hsets : values.endedAt.isSome = setsEnd) (hnamed : setsEnd = true → ∀ current, s.node.outages.lookup id = some current →
      current.source = .detected → (current.ended_at.isSome = true → current.closed_by.isSome = true) ∧
        (current.ended_at = none → userId.isSome = true)) :
    Marked (s.changed id setsEnd now (.ok outages)) := by
  obtain ⟨current, hcurrent, hcases⟩ := updateOutage_cases hupdate
  have hcloser {k : Nat} (hk : k ≠ id) : (s.changed id setsEnd now (.ok outages)).closer.lookup k = s.closer.lookup k := by
    unfold State.changed
    dsimp only
    split
    · rw [Table.lookup_insert', if_neg hk]
    · rfl
  refine ⟨fun k row' hrow' => ?_, fun k row' hrow' hdetected hended hclosed => ?_⟩
  · rcases hcases k row' hrow' with ⟨-, hrow⟩ | ⟨rfl, -⟩
    · exact h.fresh k row' hrow
    · exact h.fresh k current hcurrent
  · rcases hcases k row' hrow' with ⟨hne, hrow⟩ | ⟨rfl, hsource, hend, hby⟩
    · exact (hcloser hne).trans (h.marked k row' hrow hdetected hended hclosed)
    · have hdetected' : current.source = .detected := hsource.symm.trans hdetected
      cases setsEnd with
      | true =>
        obtain ⟨hagain, hfirst⟩ := hnamed rfl current hcurrent hdetected'
        rw [hby] at hclosed
        cases hold : current.ended_at with
        | none =>
          have huser := hfirst hold
          rw [hold, hended] at hclosed
          simp only [Option.isNone_none, Bool.and_self, if_true] at hclosed
          rw [hclosed] at huser
          cases huser
        | some _ =>
          have huser := hagain (by rw [hold]; rfl)
          rw [hold] at hclosed
          simp only [Option.isNone_some, Bool.false_and, Bool.false_eq_true, if_false] at hclosed
          rw [hclosed] at huser
          cases huser
      | false =>
        have hnone : values.endedAt = none := Option.not_isSome_iff_eq_none.mp (by simp [hsets])
        rw [hnone] at hend
        have hsame : row'.ended_at = current.ended_at := hend
        have hby' : row'.closed_by = current.closed_by := by
          rw [hby, hsame]
          cases current.ended_at <;> rfl
        exact h.marked k current hcurrent hdetected' (hsame ▸ hended) (hby' ▸ hclosed)

theorem Marked.refused {error : String} (h : Marked s) : Marked (s.changed id setsEnd now (.error error)) := ⟨h.fresh, h.marked⟩

theorem named_actor (h : caller.named toLowerCase admins = true) (hactor : caller.actor toLowerCase admins = .ok actor) :
    actor.userId.isSome = true := by
  unfold Caller.named at h
  rwa [hactor] at h

theorem marked_invariant : (system toLowerCase admins).Invariant (fun s l => named toLowerCase admins s l = true) Marked where
  init h := by
    obtain ⟨⟨hmanual, -⟩, -⟩ := h
    refine ⟨fun id row hrow => (hmanual id row hrow).1, fun id row hrow hdetected => ?_⟩
    rw [(hmanual id row hrow).2] at hdetected
    cases hdetected
  step {s l s'} hs hguard hstep := by
    cases l with
    | check check now previous =>
      obtain ⟨node, hnode, rfl⟩ := Option.map_eq_some_iff.mp hstep
      exact hs.checked hnode
    | close id body caller now =>
      change (if s.node.clock.all (· ≤ now) = true then _ else none) = _ at hstep
      split at hstep
      · cases hstep
        cases hactor : caller.actor toLowerCase admins with
        | error e => exact hs.refused
        | ok actor =>
          change Marked (s.changed id true now (closeOutage s.node.outages id body actor now))
          cases hclose : closeOutage s.node.outages id body actor now with
          | error e => exact hs.refused
          | ok outages =>
            obtain ⟨current, values, hcurrent, hopen, hsets, hupdate⟩ := closeOutage_ok hclose
            refine hs.update hupdate hsets fun _ row hrow hdetected => ?_
            rw [hcurrent] at hrow
            cases hrow
            refine ⟨fun hended => by simp [hopen] at hended, fun _ => named_actor toLowerCase admins ?_ hactor⟩
            simpa [named, hcurrent, hdetected, hopen] using hguard
      · cases hstep
    | change id body caller now =>
      change (if s.node.clock.all (· ≤ now) = true then _ else none) = _ at hstep
      split at hstep
      · cases hstep
        cases hactor : caller.actor toLowerCase admins with
        | error e => exact hs.refused
        | ok actor =>
          change Marked (s.changed id body.endedAt.isSome now (changeOutage s.node.outages id body actor now))
          cases hchange : changeOutage s.node.outages id body actor now with
          | error e => exact hs.refused
          | ok outages =>
            obtain ⟨values, hsets, hupdate⟩ := changeOutage_ok hchange
            refine hs.update hupdate hsets fun hends row hrow hdetected => ?_
            have hrowNamed : (if row.ended_at.isSome = true then row.closed_by.isSome else caller.named toLowerCase admins) = true := by
              obtain ⟨endedAt, hendedAt⟩ := Option.isSome_iff_exists.mp hends
              simpa [named, hrow, hdetected, hendedAt] using hguard
            refine ⟨fun hended => ?_, fun hopen => ?_⟩
            · rwa [if_pos hended] at hrowNamed
            · rw [if_neg (by simp [hopen])] at hrowNamed
              exact named_actor toLowerCase admins hrowNamed hactor
      · cases hstep

/-- **A window that an administrator closed stays closed** in every run whose closes carry a user. -/
theorem closed_stays_closed (h : (system toLowerCase admins).ReachesUnder (fun s l => named toLowerCase admins s l = true) s) :
    ReopensOwn toLowerCase admins s := by
  intro check now previous s' hstep id row row' hrow hended hrow' hopen
  have hmarked : Marked s := (marked_invariant toLowerCase admins).reachesUnder h
  obtain ⟨node, hnode, rfl⟩ := Option.map_eq_some_iff.mp hstep
  cases (check_cases hnode).2 id row' hrow' with
  | kept row₀ hrow₀ _ hend =>
    rw [hrow] at hrow₀
    cases hrow₀
    rw [← hend, hopen] at hended
    cases hended
  | ended row₀ _ _ hsome =>
    rw [hopen] at hsome
    cases hsome
  | reopened row₀ hrow₀ hdetected hended₀ hclosed =>
    rw [hrow] at hrow₀
    cases hrow₀
    exact hmarked.marked id row hrow hdetected hended hclosed
  | opened heq =>
    have hfresh := hmarked.fresh id row hrow
    rw [heq] at hfresh
    exact absurd hfresh (lt_irrefl _)

def node₀ : Outages.State := { outages := ∅, nextId := 1, state := none, clock := none }

theorem init_node₀ : (system String.toLower []).init { node := node₀ } := ⟨⟨fun id row hrow => by simp [node₀] at hrow, rfl⟩, rfl⟩

def down : Check := { result := .failed, signals := ["container_down"], down := [] }

/-- The window that was closed at `ended`, as the next failed check finds it. -/
def closedRow (ended : Int) (userId : Option Nat) : Outage where
  started_at := 0
  ended_at := some ended
  source := .detected
  cause := { signals := ["container_down"], firstFailedAt := some 0, startUncertain := some true }
  last_failed_at := some 0
  closed_by := userId

/-- An administrator's close in the panel holds against the next failed check. -/
theorem closed_stays_closed_panel : ∃ s, (system String.toLower []).ReachesUnder (fun s l => named String.toLower [] s l = true) s ∧ ReopensOwn String.toLower [] s ∧
    s.node.outages.lookup 1 = some (closedRow 1000 (some 7)) := by
  have htrace : ((system String.toLower []).exec (fun s l => named String.toLower [] s l = true) { node := node₀ } [.check down 0 none,
      .close 1 {} (.panel 7) 1000]).any (fun s => decide (s.node.outages.lookup 1 = some (closedRow 1000 (some 7)))) = true := by
    decide +kernel
  obtain ⟨s, hs, hp⟩ := TransitionSystem.reaches_of_exec init_node₀ htrace
  exact ⟨s, hs, closed_stays_closed String.toLower [] hs, of_decide_eq_true hp⟩

/-- A close by the CLI without `--as` leaves no user, and the next failed check opens the window again. -/
theorem not_closed_stays_closed : ¬ ∀ s, (system String.toLower []).Reachable s → ReopensOwn String.toLower [] s := by
  intro h
  have htrace : ((system String.toLower []).exec TransitionSystem.anyStep { node := node₀ } [.check down 0 none, .close 1 {} (.cli none) 1000]).any
      (fun s => decide (s.node.outages.lookup 1 = some (closedRow 1000 none) ∧ s.closer.lookup 1 = some .admin ∧
        ((system String.toLower []).step s (.check down 2000 (some (1, closedRow 1000 none)))).any fun s' =>
          (s'.node.outages.lookup 1).any fun row => row.ended_at.isNone)) = true := by decide +kernel
  obtain ⟨s, hs, hp⟩ := TransitionSystem.reaches_of_exec init_node₀ htrace
  obtain ⟨hrow, hcloser, hnext⟩ := of_decide_eq_true hp
  obtain ⟨s', hstep, hnext⟩ := (Option.any_eq_true _ _).mp hnext
  obtain ⟨row', hrow', hopen⟩ := (Option.any_eq_true _ _).mp hnext
  have hcheck := h s hs down 2000 _ s' hstep 1 _ row' hrow rfl hrow' (Option.isNone_iff_eq_none.mp hopen)
  rw [hcloser] at hcheck
  cases hcheck

end MailExpert.OutageClosing
