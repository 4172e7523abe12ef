import MailExpert.AccessSync.Users

/-!
# A second run

A run that finished is followed at once by another one (`again`). It imports no user, and it turns off
only users whom an exclude rule names and whom the first run could not take for its own: the first run
wrote their address into the policy, so the second one takes it for removed (`World.barredLate`).
Where there is none, the second run changes nothing.
-/

namespace MailExpert.AccessSync

variable {toLowerCase : String → String} {settings : Settings} {w : World} {e : String}
  {es baseline pinned desired active : List String} {policy : Policy} {rules : List Rule}

theorem mem_sorted : e ∈ sorted es ↔ e ∈ es := by
  rw [sorted, List.mem_insertionSort, List.mem_dedup]

theorem sorted_eq_nil : sorted es = [] ↔ ∀ e, e ∉ es := by
  rw [List.eq_nil_iff_forall_not_mem]
  simp only [mem_sorted]

theorem nodup_sorted : (sorted es).Nodup := by
  rw [sorted, (List.perm_insertionSort _ _).nodup_iff]
  exact List.nodup_dedup es

theorem mem_ruleEmails : e ∈ ruleEmails toLowerCase rules ↔
    ∃ rule ∈ rules, ruleEmail toLowerCase rule = e ∧ e ≠ "" := by
  simp only [ruleEmails, List.mem_filter, List.mem_map, decide_eq_true_eq]
  constructor
  · rintro ⟨⟨rule, hrule, rfl⟩, hne⟩
    exact ⟨rule, hrule, rfl, hne⟩
  · rintro ⟨rule, hrule, rfl, hne⟩
    exact ⟨⟨rule, hrule, rfl⟩, hne⟩

theorem mem_removedInCloudflare : e ∈ removedInCloudflare toLowerCase policy baseline active pinned ↔
    ruleEmails toLowerCase policy.includes ≠ [] ∧ e ∈ baseline ∧ e ∈ active ∧ e ∉ pinned ∧
      (policy.bars toLowerCase e = true ∨
        e ∉ ruleEmails toLowerCase policy.includes ∧ domainAdmits toLowerCase policy e = false) := by
  unfold removedInCloudflare
  dsimp only
  split
  · next hnone => simp [hnone]
  · next hsome =>
    rw [mem_sorted, List.mem_filter]
    simp only [Bool.and_eq_true, Bool.or_eq_true, decide_eq_true_eq, Bool.not_eq_true', ne_eq, hsome,
      not_false_eq_true, true_and]
    tauto

theorem nodup_removedInCloudflare :
    (removedInCloudflare toLowerCase policy baseline active pinned).Nodup := by
  unfold removedInCloudflare
  dsimp only
  split
  · exact List.nodup_nil
  · exact nodup_sorted

theorem mem_importCandidates : e ∈ importCandidates toLowerCase policy baseline pinned ↔
    e ∈ ruleEmails toLowerCase policy.includes ∧ e ∉ baseline ∧ e ∉ pinned ∧
      policy.bars toLowerCase e = false := by
  rw [importCandidates, mem_sorted, List.mem_filter]
  simp only [Bool.and_eq_true, decide_eq_true_eq, Bool.not_eq_true']
  tauto

theorem Normal.ruleEmail (h : Normal toLowerCase e) : ruleEmail toLowerCase { email := some e } = e := by
  rw [AccessSync.ruleEmail, Option.map_some, Option.getD_some, AccessSync.lower, h.trim, h.lower]

/-- After the write the policy lists what it listed and the sync did not own, and what is desired. -/
theorem mem_ruleEmails_built (hdesired : ∀ e ∈ desired, Normal toLowerCase e) :
    e ∈ ruleEmails toLowerCase (buildInclude toLowerCase policy baseline desired).includes ↔
      e ∈ ruleEmails toLowerCase policy.includes ∧ e ∉ baseline ∨ e ∈ desired := by
  rw [mem_ruleEmails, mem_ruleEmails]
  simp only [buildInclude, List.mem_append, List.mem_filter, List.mem_map, Bool.or_eq_true,
    Bool.not_eq_true', Bool.and_eq_true, decide_eq_true_eq, mem_sorted]
  constructor
  · rintro ⟨rule, ⟨hrule, hkept⟩ | ⟨e', he', rfl⟩, rfl, hne⟩
    · rcases hkept with hemail | ⟨hbaseline, -⟩
      · rw [isEmailRule, decide_eq_false_iff_not, not_not] at hemail
        exact absurd hemail hne
      · exact .inl ⟨⟨rule, hrule, rfl, hne⟩, hbaseline⟩
    · rw [(hdesired e' he').ruleEmail]
      exact .inr he'
  · rintro (⟨⟨rule, hrule, rfl, hne⟩, hbaseline⟩ | he)
    · by_cases hwanted : AccessSync.ruleEmail toLowerCase rule ∈ desired
      · exact ⟨_, .inr ⟨_, hwanted, rfl⟩, (hdesired _ hwanted).ruleEmail, hne⟩
      · exact ⟨rule, .inl ⟨hrule, .inr ⟨hbaseline, hwanted⟩⟩, rfl, hne⟩
    · exact ⟨_, .inr ⟨e, he, rfl⟩, (hdesired e he).ruleEmail, (hdesired e he).nonempty⟩

theorem changed_eq_false : (buildInclude toLowerCase policy baseline desired).changed = false ↔
    (∀ e ∈ desired, e ∈ ruleEmails toLowerCase policy.includes) ∧
      ∀ e ∈ ruleEmails toLowerCase policy.includes, e ∈ baseline → e ∈ desired := by
  simp only [Built.changed, buildInclude, Bool.or_eq_false_iff, decide_eq_false_iff_not, not_not,
    List.filter_eq_nil_iff, mem_sorted, decide_eq_true_eq, ne_eq, sorted_eq_nil, List.mem_filter,
    Bool.and_eq_true, not_and]

/-- An empty list wants nobody, and keeps no rule but those of emails that the sync owned. -/
theorem includes_eq_nil : (buildInclude toLowerCase policy baseline desired).includes = [] ↔
    (∀ e, e ∉ desired) ∧ ∀ rule ∈ policy.includes, isEmailRule toLowerCase rule = true ∧
      ruleEmail toLowerCase rule ∈ baseline := by
  simp only [buildInclude, List.append_eq_nil_iff, List.filter_eq_nil_iff, List.map_eq_nil_iff,
    sorted_eq_nil, mem_sorted, Bool.or_eq_true, Bool.not_eq_true', Bool.and_eq_true,
    decide_eq_true_eq, not_or, Bool.not_eq_false, not_and, not_not]
  constructor
  · rintro ⟨hkept, hnone⟩
    refine ⟨hnone, fun rule hrule => ⟨(hkept rule hrule).1, ?_⟩⟩
    by_contra hbaseline
    exact hnone _ ((hkept rule hrule).2 hbaseline)
  · rintro ⟨hnone, hkept⟩
    exact ⟨fun rule hrule => ⟨(hkept rule hrule).1, fun hbaseline => absurd (hkept rule hrule).2 hbaseline⟩,
      hnone⟩

/-- An address that `normalizeEmail` leaves as it is. -/
theorem normal_of_normalizeEmail (h : normalizeEmail toLowerCase e = some e) : Normal toLowerCase e := by
  rw [normalizeEmail, Option.ite_none_right_eq_some, Bool.and_eq_true] at h
  obtain ⟨⟨-, hmatches⟩, hlower⟩ := h
  rw [Option.some.inj hlower] at hmatches
  unfold matchesEmail at hmatches
  split at hmatches
  case h_2 => cases hmatches
  next name domain hsplit =>
  simp only [Bool.and_eq_true, decide_eq_true_eq] at hmatches
  obtain ⟨-, hspace⟩ := hmatches
  have hlist : e.toList = name ++ '@' :: domain := by
    have hjoin : ['@'].intercalate (e.toList.splitOn '@') = e.toList := List.intercalate_splitOn '@'
    rw [hsplit] at hjoin
    simpa [List.intercalate] using hjoin.symm
  have hall : ∀ c ∈ e.toList, ¬ isSpace c = true := by
    intro c hc
    rw [hlist, List.mem_append, List.mem_cons] at hc
    rcases hc with hc | rfl | hc
    · simpa using List.all_eq_true.mp hspace c (List.mem_append_left _ hc)
    · decide
    · simpa using List.all_eq_true.mp hspace c (List.mem_append_right _ hc)
  have htrim : trim e = e := by
    have hdrop {cs : List Char} (h : ∀ c ∈ cs, ¬ isSpace c = true) : cs.dropWhile isSpace = cs := by
      cases cs with
      | nil => rfl
      | cons c cs => rw [List.dropWhile_cons, if_neg (h c List.mem_cons_self)]
    rw [trim, hdrop hall, hdrop fun c hc => hall c (List.mem_reverse.mp hc), List.reverse_reverse,
      String.ofList_toList]
  refine ⟨?_, htrim, ?_⟩
  · have := Option.some.inj hlower
    rwa [AccessSync.lower, htrim] at this
  · rintro rfl
    simp at hlist

/-- What a run leaves that is neither stopped nor empty. -/
def World.finished (toLowerCase : String → String) (settings : Settings) (w : World) : World := { w with
  policy := if (w.built toLowerCase settings).changed then
    { w.policy with includes := (w.built toLowerCase settings).includes } else w.policy
  users := (w.disables toLowerCase settings).users
  state := {
    baseline := w.desired toLowerCase settings
    policyEmails := listedEmails toLowerCase (w.built toLowerCase settings).includes } }

structure Finishes (toLowerCase : String → String) (settings : Settings) (w : World) : Prop where
  allows : w.policy.decision = "allow"
  disables : w.disablesStopped toLowerCase settings = false
  imports : w.importsStopped toLowerCase settings = false
  nonempty : (w.built toLowerCase settings).includes ≠ []

theorem Finishes.run (h : Finishes toLowerCase settings w) : ∃ run,
    runAccessSync toLowerCase settings w = (w.finished toLowerCase settings, run) ∧
      run.outcome = (if (w.built toLowerCase settings).changed then .updated else .unchanged) ∧
      run.imported = (w.imports toLowerCase settings).imported.length ∧
      run.disabled = (w.disables toLowerCase settings).disabled.length ∧
      run.importErrors = (w.imports toLowerCase settings).errors := by
  have hstop : (w.disablesStopped toLowerCase settings || w.importsStopped toLowerCase settings) ≠ true := by
    rw [h.disables, h.imports]
    decide
  rw [runAccessSync, if_neg (not_not.mpr h.allows), if_neg hstop]
  dsimp only
  rw [if_neg h.nonempty]
  exact ⟨_, rfl, rfl, rfl, rfl, rfl⟩

theorem users_run (w : World) : (runAccessSync toLowerCase settings w).1.users = w.users ∨
    (runAccessSync toLowerCase settings w).1.users = (w.disables toLowerCase settings).users := by
  unfold runAccessSync
  split
  · exact .inl rfl
  split
  · exact .inl rfl
  dsimp only
  split
  · exact .inr rfl
  · exact .inr rfl

theorem finished_policy (h : (w.built toLowerCase settings).changed = false) : (w.finished toLowerCase settings).policy = w.policy := by
  rw [World.finished, h]
  rfl

/-- A run that ends updated or unchanged. -/
theorem finishes_of_outcome (h : (runAccessSync toLowerCase settings w).2.outcome = .updated ∨
    (runAccessSync toLowerCase settings w).2.outcome = .unchanged) : Finishes toLowerCase settings w := by
  unfold runAccessSync at h
  split at h
  · simp at h
  next hallow =>
  split at h
  · simp at h
  next hstop =>
  rw [Bool.or_eq_true, not_or, Bool.not_eq_true, Bool.not_eq_true] at hstop
  dsimp only at h
  split at h
  · simp at h
  next hnonempty =>
  exact ⟨not_not.mp hallow, hstop.1, hstop.2, hnonempty⟩

/-! ## The users of a run -/

theorem mem_activeEmails (h : WellFormed toLowerCase w.users) :
    e ∈ w.activeEmails toLowerCase ↔ ∃ u, Row w.users e u ∧ u.disabled = false := by
  rw [World.activeEmails, mem_emailsWhere h]
  simp only [Bool.not_eq_true']

theorem mem_unpinned (h : WellFormed toLowerCase w.users) :
    e ∈ w.unpinned toLowerCase ↔
      (∃ u, Row w.users e u ∧ u.disabled = false ∧ u.login = true) ∧
        e ∉ ruleEmails toLowerCase w.policy.includes := by
  rw [World.unpinned, List.mem_filter, World.byRule, mem_emailsWhere h]
  simp only [Bool.and_eq_true, Bool.not_eq_true', decide_eq_true_eq, listedEmails, mem_sorted]

theorem mem_adopt (hmem : e ∈ w.adopt toLowerCase) :
    e ∈ ruleEmails toLowerCase w.policy.includes := by
  rw [World.adopt, List.mem_filter] at hmem
  simpa [listedEmails, mem_sorted] using hmem.2

theorem mem_toImport (h : WellFormed toLowerCase w.users) :
    e ∈ w.toImport toLowerCase settings ↔ e ∈ ruleEmails toLowerCase w.policy.includes ∧
      e ∉ w.state.baseline ∧ e ∉ settings.bootstrapAdminEmails ∧ w.policy.bars toLowerCase e = false ∧
      normalizeEmail toLowerCase e = some e ∧ (∀ u, ¬ Row w.users e u) ∧ e ∉ w.tombstones := by
  have hknown : e ∉ emailsWhere toLowerCase w.users (fun _ => true) ↔ ∀ u, ¬ Row w.users e u := by
    rw [mem_emailsWhere h]
    simp
  rw [World.toImport, List.mem_filter, World.proposed, mem_importCandidates]
  simp only [Bool.and_eq_true, decide_eq_true_eq, hknown]
  tauto

theorem nodup_toImport : (w.toImport toLowerCase settings).Nodup := nodup_sorted.filter _

/-- A run starts from sound users and pins addresses, and each import comes to an end. -/
structure Sound (toLowerCase : String → String) (settings : Settings) (w : World) : Prop where
  users : WellFormed toLowerCase w.users
  pinned : ∀ e ∈ settings.bootstrapAdminEmails, Normal toLowerCase e
  errors : (w.imports toLowerCase settings).errors = 0

theorem Sound.imports (h : Sound toLowerCase settings w) :
    Imports toLowerCase w.users (w.imports toLowerCase settings).users (w.toImport toLowerCase settings)
      (w.imports toLowerCase settings).imported := by
  refine importUsers_spec h.users (fun e he => ?_) nodup_toImport (fun e he => ?_) (fun e he => ?_) h.errors
  · exact normal_of_normalizeEmail ((mem_toImport h.users).mp he).2.2.2.2.1
  · exact ((mem_toImport h.users).mp he).2.2.2.2.2.1
  · exact ((mem_toImport h.users).mp he).2.2.2.2.2.2

theorem Sound.disables (h : Sound toLowerCase settings w) :
    Disables toLowerCase
      (adoptUsers toLowerCase (w.imports toLowerCase settings).users (w.adopt toLowerCase))
      (w.disables toLowerCase settings).users (w.candidates toLowerCase settings)
      settings.bootstrapAdminEmails (w.disables toLowerCase settings).disabled :=
  disableUsersByEmail_spec (adoptUsers_spec h.imports.wf).1

/-- A user after the run, from the user after the imports. -/
theorem Sound.row_iff (h : Sound toLowerCase settings w) {u' : User} :
    Row (w.disables toLowerCase settings).users e u' ↔
      ∃ u, Row (w.imports toLowerCase settings).users e u ∧
        let u₁ := if e ∈ w.adopt toLowerCase ∧ u.login = true then u.adopted else u
        u' = if e ∈ (w.disables toLowerCase settings).disabled then u₁.off else u₁ := by
  rw [h.disables.rows]
  constructor
  · rintro ⟨u₁, hu₁, rfl⟩
    obtain ⟨u, hu, rfl⟩ := ((adoptUsers_spec h.imports.wf).2 e u₁).mp hu₁
    exact ⟨u, hu, rfl⟩
  · rintro ⟨u, hu, rfl⟩
    exact ⟨_, ((adoptUsers_spec h.imports.wf).2 e _).mpr ⟨u, hu, rfl⟩, rfl⟩

theorem Sound.not_mem_toImport (h : Sound toLowerCase settings w) {u : User} (hu : Row w.users e u) :
    e ∉ w.toImport toLowerCase settings :=
  fun hmem => ((mem_toImport h.users).mp hmem).2.2.2.2.2.1 u hu

theorem mem_candidates : e ∈ w.candidates toLowerCase settings ↔
    ruleEmails toLowerCase w.policy.includes ≠ [] ∧ e ∈ w.state.baseline ∧
      e ∈ w.activeEmails toLowerCase ∧ e ∉ settings.bootstrapAdminEmails ∧
      (w.policy.bars toLowerCase e = true ∨ e ∉ ruleEmails toLowerCase w.policy.includes ∧
        domainAdmits toLowerCase w.policy e = false) :=
  mem_removedInCloudflare

/-- An address that was just imported is not turned off: the sync does not own it yet. -/
theorem Sound.not_disabled (h : Sound toLowerCase settings w)
    (hmem : e ∈ w.toImport toLowerCase settings) : e ∉ (w.disables toLowerCase settings).disabled := by
  intro hdisabled
  have hcandidate := mem_candidates.mp (h.disables.active hdisabled).1
  exact ((mem_toImport h.users).mp hmem).2.1 hcandidate.2.1

/-- Who is active after the run. -/
theorem Sound.active_iff (h : Sound toLowerCase settings w) :
    (∃ u, Row (w.disables toLowerCase settings).users e u ∧ u.disabled = false) ↔
      e ∈ w.activeEmails toLowerCase ∧ e ∉ (w.disables toLowerCase settings).disabled ∨
        e ∈ (w.imports toLowerCase settings).imported := by
  have hafter : (∃ u, Row (w.disables toLowerCase settings).users e u ∧ u.disabled = false) ↔
      e ∉ (w.disables toLowerCase settings).disabled ∧
        ∃ u, Row (w.imports toLowerCase settings).users e u ∧ u.disabled = false := by
    constructor
    · rintro ⟨u', hu', hactive⟩
      obtain ⟨u, hu, rfl⟩ := h.row_iff.mp hu'
      split at hactive
      · cases hactive
      · next hnot =>
        refine ⟨hnot, u, hu, ?_⟩
        split at hactive
        · exact hactive
        · exact hactive
    · rintro ⟨hnot, u, hu, hactive⟩
      refine ⟨_, h.row_iff.mpr ⟨u, hu, rfl⟩, ?_⟩
      rw [if_neg hnot]
      split
      · exact hactive
      · exact hactive
  rw [hafter, h.imports.imported, mem_activeEmails h.users]
  by_cases hmem : e ∈ w.toImport toLowerCase settings
  · have hnew : ¬ ∃ u, Row w.users e u ∧ u.disabled = false :=
      fun ⟨u, hu, _⟩ => h.not_mem_toImport hu hmem
    simp only [hmem, hnew, h.not_disabled hmem, not_false_eq_true, true_and, false_and, false_or]
  · simp only [hmem, h.imports.kept hmem, false_and, or_false]
    exact and_comm

theorem mem_map_lower (h : ∀ e ∈ es, toLowerCase e = e) : e ∈ es.map toLowerCase ↔ e ∈ es := by
  rw [List.mem_map]
  constructor
  · rintro ⟨e', he', rfl⟩
    rwa [h e' he']
  · intro he
    exact ⟨e, he, h e he⟩

theorem Sound.mem_desired (h : Sound toLowerCase settings w) :
    e ∈ w.desired toLowerCase settings ↔
      e ∈ w.activeEmails toLowerCase ∧ e ∉ (w.disables toLowerCase settings).disabled ∧
          e ∉ w.unpinned toLowerCase ∨
        e ∈ (w.imports toLowerCase settings).imported ∨ e ∈ settings.bootstrapAdminEmails := by
  have hdisabled : ∀ e ∈ (w.disables toLowerCase settings).disabled, toLowerCase e = e := by
    intro e he
    obtain ⟨-, -, u, hu, -⟩ := h.disables.active he
    exact (hu.normal (adoptUsers_spec h.imports.wf).1).lower
  have himported : ∀ e ∈ (w.imports toLowerCase settings).imported, toLowerCase e = e := by
    intro e he
    obtain ⟨-, u, hu, -⟩ := h.imports.imported.mp he
    exact (hu.normal h.imports.wf).lower
  rw [World.desired]
  simp only [mem_sorted, List.mem_append, List.mem_filter, Bool.and_eq_true, decide_eq_true_eq,
    mem_map_lower hdisabled, mem_map_lower himported, or_assoc]

theorem Sound.normal_desired (h : Sound toLowerCase settings w) :
    ∀ e ∈ w.desired toLowerCase settings, Normal toLowerCase e := by
  intro e he
  rcases h.mem_desired.mp he with ⟨hactive, -⟩ | himported | hpinned
  · obtain ⟨u, hu, -⟩ := (mem_activeEmails h.users).mp hactive
    exact hu.normal h.users
  · obtain ⟨-, u, hu, -⟩ := h.imports.imported.mp himported
    exact hu.normal h.imports.wf
  · exact h.pinned e hpinned

/-- What the policy lists after the run, whether the run wrote it or found it in line. -/
theorem Sound.listed_iff (h : Sound toLowerCase settings w) :
    e ∈ ruleEmails toLowerCase (w.finished toLowerCase settings).policy.includes ↔
      e ∈ ruleEmails toLowerCase w.policy.includes ∧ e ∉ w.state.baseline ∨
        e ∈ w.desired toLowerCase settings := by
  unfold World.finished
  dsimp only
  split
  · exact mem_ruleEmails_built h.normal_desired
  · next hchanged =>
    obtain ⟨hadded, hremoved⟩ := changed_eq_false.mp (Bool.not_eq_true _ ▸ hchanged)
    constructor
    · intro he
      by_cases hbaseline : e ∈ w.state.baseline
      · exact .inr (hremoved e he hbaseline)
      · exact .inl ⟨he, hbaseline⟩
    · rintro (⟨he, -⟩ | he)
      · exact he
      · exact hadded e he

theorem finished_bars : (w.finished toLowerCase settings).policy.bars toLowerCase e =
    w.policy.bars toLowerCase e := by
  unfold World.finished
  dsimp only
  split
  · rfl
  · rfl

/-- The active users whom an exclude rule names and whom the run takes for users of its own from now on,
although it did not own them before. -/
def World.barredLate (toLowerCase : String → String) (settings : Settings) (w : World) : List String :=
  (w.activeEmails toLowerCase).filter fun e => w.policy.bars toLowerCase e &&
    e ∉ settings.bootstrapAdminEmails && e ∉ w.unpinned toLowerCase &&
    !(ruleEmails toLowerCase w.policy.includes ≠ [] && e ∈ w.state.baseline)

theorem mem_barredLate : e ∈ w.barredLate toLowerCase settings ↔
    e ∈ w.activeEmails toLowerCase ∧ w.policy.bars toLowerCase e = true ∧
      e ∉ settings.bootstrapAdminEmails ∧ e ∉ w.unpinned toLowerCase ∧
      (ruleEmails toLowerCase w.policy.includes ≠ [] → e ∉ w.state.baseline) := by
  rw [World.barredLate, List.mem_filter]
  simp only [Bool.and_eq_true, decide_eq_true_eq, Bool.not_eq_true', Bool.and_eq_false_iff,
    decide_eq_false_iff_not]
  tauto

section Next

variable (h : Sound toLowerCase settings w)
include h

/-- Whom the next run would turn off: users barred late, and the administrator who was spared. -/
theorem Sound.next_candidate (he : e ∈ (w.finished toLowerCase settings).candidates toLowerCase settings) :
    e ∈ w.barredLate toLowerCase settings ∨
      e ∈ w.candidates toLowerCase settings ∧ SoleAdmin (w.finished toLowerCase settings).users e := by
  obtain ⟨-, hbaseline, hactive, hpinned, hremoved⟩ := mem_candidates.mp he
  have hdesired : e ∈ w.desired toLowerCase settings := hbaseline
  have hbars : w.policy.bars toLowerCase e = true := by
    rcases hremoved with hbars | ⟨hlisted, -⟩
    · exact finished_bars.symm.trans hbars
    · exact absurd (h.listed_iff.mpr (.inr hdesired)) hlisted
  obtain ⟨u, hu, hon⟩ := (mem_activeEmails h.disables.wf).mp hactive
  rcases h.mem_desired.mp hdesired with ⟨hbefore, hnot, hunpinned⟩ | himported | hboot
  · by_cases hcandidate : e ∈ w.candidates toLowerCase settings
    · exact .inr ⟨hcandidate, h.disables.sole hcandidate hpinned hu hon⟩
    · refine .inl (mem_barredLate.mpr ⟨hbefore, hbars, hpinned, hunpinned, fun hlisted howned => ?_⟩)
      exact hcandidate (mem_candidates.mpr ⟨hlisted, howned, hbefore, hpinned, .inl hbars⟩)
  · have hclear := ((mem_toImport h.users).mp (h.imports.imported.mp himported).1).2.2.2.1
    rw [hbars] at hclear
    cases hclear
  · exact absurd hboot hpinned

theorem Sound.next_toImport : (w.finished toLowerCase settings).toImport toLowerCase settings = [] := by
  rw [List.eq_nil_iff_forall_not_mem]
  intro e he
  obtain ⟨hlisted, hbaseline, hpinned, hbars, hnormal, hnew, htomb⟩ := (mem_toImport h.disables.wf).mp he
  have hrow {u : User} (hu : Row (w.imports toLowerCase settings).users e u) : False :=
    hnew _ (h.row_iff.mpr ⟨u, hu, rfl⟩)
  rcases h.listed_iff.mp hlisted with ⟨hlisted, howned⟩ | hdesired
  · by_cases hmem : e ∈ w.toImport toLowerCase settings
    · obtain ⟨u, hu⟩ := h.imports.known hmem
      exact hrow hu
    · refine hmem ((mem_toImport h.users).mpr ⟨hlisted, howned, hpinned, ?_, hnormal, fun u hu => ?_, htomb⟩)
      · exact finished_bars.symm.trans hbars
      · exact hrow ((h.imports.kept hmem).mpr hu)
  · exact hbaseline hdesired

theorem Sound.next_imports :
    (w.finished toLowerCase settings).imports toLowerCase settings =
      { users := (w.finished toLowerCase settings).users } := by
  rw [World.imports, h.next_toImport]
  rfl

theorem Sound.next : Sound toLowerCase settings (w.finished toLowerCase settings) := by
  refine ⟨h.disables.wf, h.pinned, ?_⟩
  rw [h.next_imports]

/-- The administrator who was spared is spared again. -/
theorem Sound.next_disabled
    (he : e ∈ ((w.finished toLowerCase settings).disables toLowerCase settings).disabled) :
    e ∈ w.barredLate toLowerCase settings := by
  rcases h.next_candidate (h.next.disables.active he).1 with hlate | ⟨-, hsole⟩
  · exact hlate
  · refine absurd ?_ (h.next.disables.spared he)
    rw [h.next_imports]
    exact hsole.adopt h.disables.wf

theorem Sound.next_active (he : e ∈ (w.finished toLowerCase settings).activeEmails toLowerCase)
    (hoff : e ∉ (runAccessSync toLowerCase settings (w.finished toLowerCase settings)).1.activeEmails
      toLowerCase) : e ∈ w.barredLate toLowerCase settings := by
  rcases users_run (w.finished toLowerCase settings) with hsame | hnext
  · rw [World.activeEmails, hsame] at hoff
    exact absurd he hoff
  · rw [World.activeEmails, hnext, mem_emailsWhere h.next.disables.wf] at hoff
    by_contra hlate
    refine hoff ?_
    obtain ⟨u, hu, hon⟩ := h.next.active_iff.mpr (.inl ⟨he, fun hmem => hlate (h.next_disabled hmem)⟩)
    exact ⟨u, hu, by rw [hon]; rfl⟩

/-! ### Where nobody is barred late -/

/-- Some active user is not to be turned off, or the run would have stopped. -/
theorem Sound.exists_kept (hstop : w.disablesStopped toLowerCase settings = false)
    (he : e ∈ w.candidates toLowerCase settings) :
    1 ≤ settings.maxDisables ∧ ∃ e' ∈ w.activeEmails toLowerCase, e' ∉ w.candidates toLowerCase settings := by
  have hpos := List.length_pos_of_mem he
  rw [World.disablesStopped, exceedsDisableLimit] at hstop
  simp only [gt_iff_lt, hpos, decide_true, Bool.true_and, Bool.or_eq_false_iff, decide_eq_false_iff_not,
    not_lt] at hstop
  refine ⟨hpos.trans_le hstop.1, ?_⟩
  by_contra hnone
  push Not at hnone
  have hle := (List.subperm_of_subset (nodup_emailsWhere h.users) hnone).length_le
  have := hstop.2
  rw [World.activeEmails] at this
  omega

variable (hlate : w.barredLate toLowerCase settings = [])
include hlate

theorem Sound.next_disables_nil :
    ((w.finished toLowerCase settings).disables toLowerCase settings).disabled = [] := by
  rw [List.eq_nil_iff_forall_not_mem]
  intro e he
  have hmem := h.next_disabled he
  rw [hlate] at hmem
  cases hmem

theorem Sound.next_desired : e ∈ (w.finished toLowerCase settings).desired toLowerCase settings ↔
    e ∈ w.desired toLowerCase settings := by
  have himported : ((w.finished toLowerCase settings).imports toLowerCase settings).imported = [] := by
    rw [h.next_imports]
  rw [h.next.mem_desired, himported, h.next_disables_nil hlate]
  have hactive : e ∈ (w.finished toLowerCase settings).activeEmails toLowerCase ↔ _ :=
    (mem_activeEmails h.next.users).trans h.active_iff
  constructor
  · rintro (⟨hmem, -, hunpinned⟩ | hmem | hmem)
    · rcases hactive.mp hmem with ⟨hbefore, hnot⟩ | himport
      · by_cases hrule : e ∈ w.unpinned toLowerCase
        · -- The run left the user to the rule, unless the address is now listed.
          obtain ⟨⟨u, hu, hon, hlogin⟩, hlisted⟩ := (mem_unpinned h.users).mp hrule
          by_contra hdesired
          refine hunpinned ((mem_unpinned h.next.users).mpr ⟨⟨u, ?_, hon, hlogin⟩, ?_⟩)
          · have hu' := (h.imports.kept (h.not_mem_toImport hu)).mpr hu
            have hadopt : e ∉ w.adopt toLowerCase := fun hmem => hlisted (mem_adopt hmem)
            exact h.row_iff.mpr ⟨u, hu', by simp [hnot, hadopt]⟩
          · intro hnow
            rcases h.listed_iff.mp hnow with ⟨hwas, -⟩ | hnow
            · exact hlisted hwas
            · exact hdesired hnow
        · exact h.mem_desired.mpr (.inl ⟨hbefore, hnot, hrule⟩)
      · exact h.mem_desired.mpr (.inr (.inl himport))
    · cases hmem
    · exact h.mem_desired.mpr (.inr (.inr hmem))
  · intro hdesired
    have hunpinned : e ∉ (w.finished toLowerCase settings).unpinned toLowerCase := fun hmem =>
      ((mem_unpinned h.next.users).mp hmem).2 (h.listed_iff.mpr (.inr hdesired))
    rcases h.mem_desired.mp hdesired with ⟨hbefore, hnot, -⟩ | himport | hpinned
    · exact .inl ⟨hactive.mpr (.inl ⟨hbefore, hnot⟩), List.not_mem_nil, hunpinned⟩
    · exact .inl ⟨hactive.mpr (.inr himport), List.not_mem_nil, hunpinned⟩
    · exact .inr (.inr hpinned)

theorem Sound.next_changed : ((w.finished toLowerCase settings).built toLowerCase settings).changed = false := by
  refine changed_eq_false.mpr ⟨fun e he => ?_, fun e _ he => ?_⟩
  · exact h.listed_iff.mpr (.inr ((h.next_desired hlate).mp he))
  · exact (h.next_desired hlate).mpr he

variable (hfinishes : Finishes toLowerCase settings w)
include hfinishes

/-- The next run stays below the limit: it finds nobody, or only the administrator who was spared. -/
theorem Sound.next_not_stopped : (w.finished toLowerCase settings).disablesStopped toLowerCase settings = false := by
  have hspared {e : String} (he : e ∈ (w.finished toLowerCase settings).candidates toLowerCase settings) :
      e ∈ w.candidates toLowerCase settings ∧ SoleAdmin (w.finished toLowerCase settings).users e := by
    rcases h.next_candidate he with hmem | hspared
    · rw [hlate] at hmem
      cases hmem
    · exact hspared
  cases hcandidates : (w.finished toLowerCase settings).candidates toLowerCase settings with
  | nil => rw [World.disablesStopped, hcandidates]; rfl
  | cons e rest =>
    have he : e ∈ (w.finished toLowerCase settings).candidates toLowerCase settings := by
      rw [hcandidates]
      exact List.mem_cons_self
    obtain ⟨hbefore, hsole⟩ := hspared he
    obtain ⟨⟨admin, hadmin, -⟩, hothers⟩ := hsole
    have hrest : rest = [] := by
      rw [List.eq_nil_iff_forall_not_mem]
      intro e' he'
      have hmem : e' ∈ (w.finished toLowerCase settings).candidates toLowerCase settings := by
        rw [hcandidates]
        exact List.mem_cons_of_mem e he'
      obtain ⟨admin', hadmin', hcounts⟩ := (hspared hmem).2.1
      obtain rfl := hothers e' admin' hadmin' hcounts
      have hnodup : ((w.finished toLowerCase settings).candidates toLowerCase settings).Nodup :=
        nodup_removedInCloudflare
      rw [hcandidates, List.nodup_cons] at hnodup
      exact hnodup.1 he'
    obtain ⟨hlimit, e', hactive', hnot⟩ := h.exists_kept hfinishes.disables hbefore
    have hkept : e' ∈ (w.finished toLowerCase settings).activeEmails toLowerCase := by
      refine (mem_activeEmails h.next.users).mpr (h.active_iff.mpr (.inl ⟨hactive', fun hmem => ?_⟩))
      exact hnot (h.disables.active hmem).1
    have hactive : e ∈ (w.finished toLowerCase settings).activeEmails toLowerCase :=
      (mem_candidates.mp he).2.2.1
    have hne : e' ≠ e := by
      rintro rfl
      exact hnot hbefore
    have htwo : 2 ≤ ((w.finished toLowerCase settings).activeEmails toLowerCase).length := by
      have hpair : [e', e].Nodup := by simp [hne]
      refine (List.subperm_of_subset hpair fun k hk => ?_).length_le
      rcases List.mem_pair.mp hk with rfl | rfl
      · exact hkept
      · exact hactive
    rw [World.disablesStopped, hcandidates, hrest, exceedsDisableLimit]
    simp only [List.length_singleton, gt_iff_lt, Bool.and_eq_false_iff, Bool.or_eq_false_iff,
      decide_eq_false_iff_not]
    omega

theorem Sound.next_finishes : Finishes toLowerCase settings (w.finished toLowerCase settings) := by
  refine ⟨?_, h.next_not_stopped hlate hfinishes, ?_, fun hempty => ?_⟩
  · unfold World.finished
    dsimp only
    split
    · exact hfinishes.allows
    · exact hfinishes.allows
  · rw [World.importsStopped, h.next_toImport]
    rfl
  · obtain ⟨hnone, hkept⟩ := includes_eq_nil.mp hempty
    have hnobody : ∀ e, e ∉ w.desired toLowerCase settings := fun e he =>
      hnone e ((h.next_desired hlate).mpr he)
    -- Nobody is desired, so the policy has no rule at all.
    have hrules : (w.finished toLowerCase settings).policy.includes = [] := by
      rw [List.eq_nil_iff_forall_not_mem]
      intro rule hrule
      exact hnobody _ (hkept rule hrule).2
    unfold World.finished at hrules
    dsimp only at hrules
    split at hrules
    · exact hfinishes.nonempty hrules
    · refine hfinishes.nonempty (includes_eq_nil.mpr ⟨hnobody, fun rule hrule => ?_⟩)
      rw [hrules] at hrule
      cases hrule

end Next

/-- A run that finished, followed at once by another one. -/
structure Again (toLowerCase : String → String) (settings : Settings) (w : World) : Prop where
  imports : (runAccessSync toLowerCase settings (runAccessSync toLowerCase settings w).1).2.imported = 0 ∧
    (runAccessSync toLowerCase settings (runAccessSync toLowerCase settings w).1).2.wouldImport = 0
  disables {e : String} : e ∈ (runAccessSync toLowerCase settings w).1.activeEmails toLowerCase →
    e ∉ (runAccessSync toLowerCase settings (runAccessSync toLowerCase settings w).1).1.activeEmails
      toLowerCase → e ∈ w.barredLate toLowerCase settings
  unchanged : w.barredLate toLowerCase settings = [] →
    (runAccessSync toLowerCase settings (runAccessSync toLowerCase settings w).1).2.outcome = .unchanged ∧
    (runAccessSync toLowerCase settings (runAccessSync toLowerCase settings w).1).2.disabled = 0 ∧
    (runAccessSync toLowerCase settings (runAccessSync toLowerCase settings w).1).1.policy =
      (runAccessSync toLowerCase settings w).1.policy

theorem again (hwf : WellFormed toLowerCase w.users)
    (hpinned : ∀ e ∈ settings.bootstrapAdminEmails, Normal toLowerCase e)
    (houtcome : (runAccessSync toLowerCase settings w).2.outcome = .updated ∨
      (runAccessSync toLowerCase settings w).2.outcome = .unchanged)
    (herrors : (runAccessSync toLowerCase settings w).2.importErrors = 0) :
    Again toLowerCase settings w := by
  have hfinishes := finishes_of_outcome houtcome
  obtain ⟨run, hrun, -, -, -, hrunErrors⟩ := hfinishes.run
  rw [hrun] at herrors
  have h : Sound toLowerCase settings w := ⟨hwf, hpinned, hrunErrors.symm.trans herrors⟩
  have hfirst : (runAccessSync toLowerCase settings w).1 = w.finished toLowerCase settings := by rw [hrun]
  have himports : ((w.finished toLowerCase settings).imports toLowerCase settings).imported = [] := by
    rw [h.next_imports]
  constructor
  · rw [hfirst]
    have hstop : (w.finished toLowerCase settings).importsStopped toLowerCase settings = false := by
      rw [World.importsStopped, h.next_toImport]
      rfl
    unfold runAccessSync
    split
    · exact ⟨rfl, rfl⟩
    split
    · exact ⟨rfl, by rw [hstop]; rfl⟩
    dsimp only
    split
    · exact ⟨by rw [himports]; rfl, rfl⟩
    · exact ⟨by rw [himports]; rfl, rfl⟩
  · intro e he hoff
    rw [hfirst] at he hoff
    exact h.next_active he hoff
  · intro hlate
    have hchanged := h.next_changed hlate
    obtain ⟨run', hrun', houtcome', -, hdisabled', -⟩ := (h.next_finishes hlate hfinishes).run
    rw [hfirst, hrun', houtcome', hchanged, hdisabled', h.next_disables_nil hlate]
    exact ⟨rfl, rfl, finished_policy hchanged⟩

def Normal.check (toLowerCase : String → String) (e : String) : Bool :=
  toLowerCase e = e && AccessSync.trim e = e && e ≠ ""

def WellFormed.check (toLowerCase : String → String) (users : UserTable) : Bool :=
  users.entries.all fun row => row.2.email.all (Normal.check toLowerCase) &&
    users.entries.all fun row' => row.2.email.isNone || row.2.email ≠ row'.2.email || row.1 = row'.1

theorem normal_of_check (h : Normal.check toLowerCase e = true) : Normal toLowerCase e := by
  simp only [Normal.check, Bool.and_eq_true, decide_eq_true_eq] at h
  exact ⟨h.1.1, h.1.2, h.2⟩

theorem wellFormed_of_check {users : UserTable} (h : WellFormed.check toLowerCase users = true) :
    WellFormed toLowerCase users := by
  have hrow {id : Nat} {u : User} (hid : users.lookup id = some u) := List.all_eq_true.mp h ⟨id, u⟩ (Table.mem_entries.mpr hid)
  constructor
  · intro id u e hid he
    have hchecked := (Bool.and_eq_true _ _ ▸ hrow hid).1
    rw [he, Option.all_some] at hchecked
    exact normal_of_check hchecked
  · intro id id' u u' e hid hid' he he'
    have hpair := List.all_eq_true.mp (Bool.and_eq_true _ _ ▸ hrow hid).2 ⟨id', u'⟩ (Table.mem_entries.mpr hid')
    simpa [he, he'] using hpair

def asciiLower (s : String) : String := String.ofList (s.toList.map Char.toLower)

/-- An administrator approved `b`, whom the policy excludes, since the last run. -/
def approvedExcluded : World where
  policy := { includes := [{ email := some "A@x.c" }], excludes := [{ email := some "b@x.c" }] }
  users := ((((∅ : UserTable).insert 1 { username := "a", email := some "a@x.c", is_admin := true }).insert 2
    { username := "b", email := some "b@x.c" }).insert 3 { username := "c", email := some "c@x.c" })
  state := { baseline := ["a@x.c"] }

/-- The first run writes `b` into the policy, and the second one turns `b` off. -/
theorem not_fixed : ¬ ∀ (settings : Settings) (w : World), WellFormed asciiLower w.users →
    (∀ e ∈ settings.bootstrapAdminEmails, Normal asciiLower e) →
    ((runAccessSync asciiLower settings w).2.outcome = .updated ∨
      (runAccessSync asciiLower settings w).2.outcome = .unchanged) →
    (runAccessSync asciiLower settings w).2.errors = 0 →
    (runAccessSync asciiLower settings (runAccessSync asciiLower settings w).1).2.disabled = 0 ∧
      (runAccessSync asciiLower settings (runAccessSync asciiLower settings w).1).2.outcome = .unchanged := by
  intro h
  have hfixed := h {} approvedExcluded (wellFormed_of_check (by decide)) (by simp) (by decide) (by decide)
  exact absurd hfixed.1 (by decide)

/-- Cloudflare added `n`, removed `b` and admits `d` by a domain. -/
def settled : World where
  policy := { includes := [{ email := some "a@x.c" }, { email := some "n@x.c" }, { email_domain := some "y.c" }] }
  users := (((((∅ : UserTable).insert 1 { username := "a", email := some "a@x.c", is_admin := true }).insert 2
    { username := "b", email := some "b@x.c" }).insert 3 { username := "c", email := some "c@x.c" }).insert 4
    { username := "d@y.c", email := some "d@y.c", access_source := some "login" })
  state := { baseline := ["a@x.c", "b@x.c"] }

theorem again_settled : (runAccessSync asciiLower {} settled).2.imported = 1 ∧
    (runAccessSync asciiLower {} settled).2.disabled = 1 ∧
    (runAccessSync asciiLower {} (runAccessSync asciiLower {} settled).1).2.outcome = .unchanged := by
  have hagain : Again asciiLower {} settled :=
    again (wellFormed_of_check (by decide)) (by simp) (by decide) (by decide)
  exact ⟨by decide, by decide, (hagain.unchanged (by decide)).1⟩

end MailExpert.AccessSync
