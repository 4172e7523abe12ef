import MailExpert.TenantDomains.Mirror

/-!
# A mirror plan and the plan after it

Once a plan is applied in full (`applied`), a second plan over the same node and panel rows asks for no write. A plan makes no contact at an
address a recipient holds, unless the holder is a contact of the domain under another primary address.
-/

namespace MailExpert.TenantDomains

variable {domain : String} {externalDomain : Option String} {reads : Reads} {recipients after : List Recipient} {a : Address} {r r' : Recipient}

def OneHolder (recipients : List Recipient) : Prop := recipients.Pairwise fun r r' => ∀ a ∈ addressesOf r, a ∉ addressesOf r'

instance : Decidable (OneHolder recipients) := inferInstanceAs (Decidable (List.Pairwise _ _))

theorem OneHolder.eq (h : OneHolder recipients) (hr : r ∈ recipients) (hr' : r' ∈ recipients) (ha : a ∈ addressesOf r)
    (ha' : a ∈ addressesOf r') : r = r' := by
  by_contra hne
  have : Std.Symm fun r r' : Recipient => ∀ a ∈ addressesOf r, a ∉ addressesOf r' := ⟨fun x y hxy b hb hb' => hxy b hb' hb⟩
  exact List.Pairwise.forall h hr hr' hne a ha ha'

theorem mem_addressesOf : a ∈ addressesOf r ↔ r.primary = some a ∨ a ∈ r.emailAddresses := by
  simp [addressesOf]

theorem contactAt_eq_none : contactAt domain recipients a = none ↔ ∀ r ∈ recipients, r.contactOf domain → r.primary ≠ some a := by
  simp [contactAt]

theorem contactAt_eq_some (h : contactAt domain recipients a = some r) : r ∈ recipients ∧ r.contactOf domain ∧ r.primary = some a := by
  have hmem := List.mem_of_getLast? h
  simpa [and_assoc] using hmem

theorem contactAt_of_oneHolder (hone : OneHolder recipients) (hr : r ∈ recipients) (hc : r.contactOf domain) (ha : r.primary = some a) :
    contactAt domain recipients a = some r := by
  cases h : contactAt domain recipients a with
  | none => exact absurd ha (contactAt_eq_none.mp h r hr hc)
  | some c =>
    obtain ⟨hmem, -, hprimary⟩ := contactAt_eq_some h
    rw [hone.eq hmem hr (mem_addressesOf.mpr (.inl hprimary)) (mem_addressesOf.mpr (.inl ha))]

/-- An address another recipient than a contact of the domain holds. -/
def Taken (domain : String) (recipients : List Recipient) (a : Address) : Prop :=
  ∃ r ∈ recipients, r.contactOf domain = false ∧ a ∈ addressesOf r

theorem contains_taken (ha : a.domain = domain) :
    (((recipients.filter fun r => !r.contactOf domain).flatMap fun r => (addressesOf r).filter (·.domain == domain)).contains a ↔
      Taken domain recipients a) := by
  simp [Taken, ha, and_assoc]

theorem domain_of_desired (h : a ∈ (planMirror domain externalDomain reads).desired) : a.domain = domain := by
  simp only [planMirror, mem_sorted, List.mem_map, List.mem_filter, Bool.and_eq_true, beq_iff_eq] at h
  obtain ⟨m, ⟨-, ⟨-, hdomain⟩, -⟩, rfl⟩ := h
  exact hdomain

theorem nodup_desired : (planMirror domain externalDomain reads).desired.Nodup :=
  (List.perm_insertionSort _ _).nodup_iff.mpr (List.nodup_dedup _)

theorem mem_create : a ∈ (planMirror domain externalDomain reads).create ↔
    a ∈ (planMirror domain externalDomain reads).desired ∧ contactAt domain reads.recipients a = none ∧ ¬Taken domain reads.recipients a := by
  refine ⟨fun h => ?_, fun ⟨hd, hc, ht⟩ => ?_⟩
  · obtain ⟨hd, h⟩ := List.mem_filter.mp h
    have hd : a ∈ (planMirror domain externalDomain reads).desired := hd
    rw [Bool.and_eq_true, Option.isNone_iff_eq_none, Bool.not_eq_true'] at h
    refine ⟨hd, h.1, fun ht => ?_⟩
    rw [(contains_taken (domain_of_desired hd)).mpr ht] at h
    cases h.2
  · refine List.mem_filter.mpr ⟨hd, ?_⟩
    rw [Bool.and_eq_true, Option.isNone_iff_eq_none, Bool.not_eq_true']
    exact ⟨hc, Bool.eq_false_iff.mpr fun h => ht ((contains_taken (domain_of_desired hd)).mp h)⟩

theorem mem_retarget : a ∈ (planMirror domain externalDomain reads).retarget ↔ a ∈ (planMirror domain externalDomain reads).desired ∧
    ∃ c, contactAt domain reads.recipients a = some c ∧ c.external ≠ some (externalOf a externalDomain) := by
  simp only [planMirror, List.mem_filter, and_assoc]
  cases contactAt domain reads.recipients a <;> simp

theorem mem_hide : a ∈ (planMirror domain externalDomain reads).hide ↔ a ∈ (planMirror domain externalDomain reads).desired ∧
    ∃ c, contactAt domain reads.recipients a = some c ∧ c.hidden = false := by
  simp only [planMirror, List.mem_filter, and_assoc]
  cases contactAt domain reads.recipients a <;> simp

def contactsOf (domain : String) (recipients : List Recipient) : List Address :=
  sorted ((recipients.filter (·.contactOf domain)).filterMap (·.primary))

theorem mem_contactsOf : a ∈ contactsOf domain recipients ↔ ∃ r ∈ recipients, r.contactOf domain ∧ r.primary = some a := by
  simp only [contactsOf, mem_sorted, List.mem_filterMap, List.mem_filter, and_assoc]

theorem contactOf_primary (h : r.contactOf domain) : ∃ a, r.primary = some a := by
  rw [Recipient.contactOf, Bool.and_eq_true] at h
  exact Option.isSome_iff_exists.mp (Option.isSome_of_any h.2)

theorem contactsOf_ne_nil : contactsOf domain recipients ≠ [] ↔ ∃ r ∈ recipients, r.contactOf domain := by
  refine ⟨fun h => ?_, fun ⟨r, hr, hc⟩ => ?_⟩
  · obtain ⟨a, ha⟩ := List.exists_mem_of_ne_nil _ h
    obtain ⟨r, hr, hc, -⟩ := mem_contactsOf.mp ha
    exact ⟨r, hr, hc⟩
  · obtain ⟨a, ha⟩ := contactOf_primary hc
    exact List.ne_nil_of_mem (mem_contactsOf.mpr ⟨r, hr, hc, ha⟩)

theorem suspicious_iff : (planMirror domain externalDomain reads).suspicious ↔ reads.mailboxes = [] ∧
    ((∃ p ∈ reads.panel, p.deleting = false) ∨ ∃ r ∈ reads.recipients, r.contactOf domain) := by
  change (reads.mailboxes.isEmpty && (reads.panel.any (!·.deleting) || !(contactsOf domain reads.recipients).isEmpty)) = true ↔ _
  rw [Bool.and_eq_true, Bool.or_eq_true, List.isEmpty_iff, List.any_eq_true, Bool.not_eq_true', List.isEmpty_eq_false_iff, contactsOf_ne_nil]
  simp

theorem remove_eq_nil (h : (planMirror domain externalDomain reads).suspicious) : (planMirror domain externalDomain reads).remove = [] := if_pos h

theorem mem_remove : a ∈ (planMirror domain externalDomain reads).remove ↔ (planMirror domain externalDomain reads).suspicious = false ∧
    a ∉ (planMirror domain externalDomain reads).desired ∧ ∃ r ∈ reads.recipients, r.contactOf domain ∧ r.primary = some a := by
  cases h : (planMirror domain externalDomain reads).suspicious with
  | true => simp [remove_eq_nil h]
  | false =>
    have hremove : (planMirror domain externalDomain reads).remove =
        (contactsOf domain reads.recipients).filter (!(planMirror domain externalDomain reads).desired.contains ·) :=
      if_neg (Bool.eq_false_iff.mp h)
    rw [hremove, List.mem_filter, mem_contactsOf, and_comm]
    simp

theorem filter_parts {α : Type*} [DecidableEq α] {l : List α} {missing taken inPlace : α → Bool} {found : α → Bool} (h : ∀ a, found a = !missing a) :
    ((l.filter fun a => missing a && !taken a) ++ ((l.filter found).filter fun a => !inPlace a) ++ (l.filter found).filter inPlace ++
      (l.filter taken).filter missing).Perm l := by
  rw [List.perm_iff_count]
  intro x
  have hfound : found = fun a => !missing a := funext h
  have hsplit := (List.filter_append_perm missing l).count_eq x
  have htaken := (List.filter_append_perm taken (l.filter missing)).count_eq x
  have hplace := (List.filter_append_perm inPlace (l.filter found)).count_eq x
  simp only [List.count_append, List.filter_filter, hfound] at *
  simp only [Bool.and_comm] at *
  omega

/-- Each desired address is to be made, moved or left, or another recipient holds it. -/
theorem parts_perm : ((planMirror domain externalDomain reads).create ++ (planMirror domain externalDomain reads).retarget ++
    (planMirror domain externalDomain reads).present ++
    (planMirror domain externalDomain reads).conflicts.filter fun a => (contactAt domain reads.recipients a).isNone).Perm
      (planMirror domain externalDomain reads).desired :=
  filter_parts fun a => (by cases contactAt domain reads.recipients a <;> rfl :
    (contactAt domain reads.recipients a).isSome = !(contactAt domain reads.recipients a).isNone)

/-! ## A plan that is applied -/

def newContact (a : Address) (externalDomain : Option String) : Recipient where
  mailContact := true
  primary := some a
  emailAddresses := [a]
  external := some (externalOf a externalDomain)
  hidden := true

def Recipient.written (r : Recipient) (plan : Plan) (externalDomain : Option String) : Recipient :=
  { r with
    external := if r.primary.any plan.retarget.contains then r.primary.map (externalOf · externalDomain) else r.external
    hidden := r.hidden || r.primary.any plan.hide.contains }

/-- The tenant's recipients after the plan. -/
def applied (domain : String) (externalDomain : Option String) (plan : Plan) (recipients : List Recipient) : List Recipient :=
  ((recipients.filter fun r => !(r.contactOf domain && r.primary.any plan.remove.contains)).map fun r =>
    if r.contactOf domain then r.written plan externalDomain else r) ++ plan.create.map (newContact · externalDomain)

@[simp] theorem written_mailContact {plan : Plan} : (r.written plan externalDomain).mailContact = r.mailContact := rfl

@[simp] theorem written_primary {plan : Plan} : (r.written plan externalDomain).primary = r.primary := rfl

@[simp] theorem written_contactOf {plan : Plan} : (r.written plan externalDomain).contactOf domain = r.contactOf domain := rfl

theorem mem_applied_contact {plan : Plan} (hc : r.contactOf domain) (ha : r.primary = some a) :
    r ∈ applied domain externalDomain plan recipients ↔
      (∃ r' ∈ recipients, r'.contactOf domain ∧ r'.primary = some a ∧ a ∉ plan.remove ∧ r = r'.written plan externalDomain) ∨
        a ∈ plan.create ∧ r = newContact a externalDomain := by
  have hkept {r' : Recipient} (hc' : r'.contactOf domain) (hp' : r'.primary = some a) :
      (!(r'.contactOf domain && r'.primary.any plan.remove.contains)) = true ↔ a ∉ plan.remove := by simp [hc', hp']
  rw [applied, List.mem_append, List.mem_map, List.mem_map]
  refine or_congr ⟨?_, ?_⟩ ⟨?_, ?_⟩
  · rintro ⟨r', hr', rfl⟩
    obtain ⟨hr', hkeep⟩ := List.mem_filter.mp hr'
    by_cases hc' : r'.contactOf domain
    · rw [if_pos hc'] at ha ⊢
      exact ⟨r', hr', hc', ha, (hkept hc' ha).mp hkeep, rfl⟩
    · rw [if_neg hc'] at hc
      exact absurd hc hc'
  · rintro ⟨r', hr', hc', hp', hkeep, rfl⟩
    exact ⟨r', List.mem_filter.mpr ⟨hr', (hkept hc' hp').mpr hkeep⟩, if_pos hc'⟩
  · rintro ⟨b, hb, rfl⟩
    cases ha
    exact ⟨hb, rfl⟩
  · rintro ⟨hb, rfl⟩
    exact ⟨a, hb, rfl⟩

theorem mem_applied_other {plan : Plan} (hr : r ∈ recipients) (hc : r.contactOf domain = false) : r ∈ applied domain externalDomain plan recipients := by
  refine List.mem_append_left _ (List.mem_map.mpr ⟨r, List.mem_filter.mpr ⟨hr, ?_⟩, ?_⟩)
  · simp [hc]
  · simp [hc]

/-- A contact after the plan takes mail as the mirror wants it, if its address is one of those it wants. -/
theorem applied_contact (hone : OneHolder reads.recipients) (ha : a ∈ (planMirror domain externalDomain reads).desired) (hc : r.contactOf domain)
    (hp : r.primary = some a) (hr : r ∈ applied domain externalDomain (planMirror domain externalDomain reads) reads.recipients) :
    r.external = some (externalOf a externalDomain) ∧ r.hidden = true := by
  rcases (mem_applied_contact hc hp).mp hr with ⟨r', hr', hc', hp', -, rfl⟩ | ⟨-, rfl⟩
  · have hat := contactAt_of_oneHolder hone hr' hc' hp'
    refine ⟨?_, ?_⟩
    · by_cases hext : r'.external = some (externalOf a externalDomain)
      · simp [Recipient.written, hp', hext]
      · have hmem := mem_retarget.mpr ⟨ha, r', hat, hext⟩
        simp [Recipient.written, hp', hmem]
    · by_cases hhidden : r'.hidden
      · simp [Recipient.written, hhidden]
      · have hmem := mem_hide.mpr ⟨ha, r', hat, Bool.eq_false_iff.mpr hhidden⟩
        simp [Recipient.written, hp', hmem]
  · exact ⟨rfl, rfl⟩

section After
variable (hafter : ∀ r, r ∈ after ↔ r ∈ applied domain externalDomain (planMirror domain externalDomain reads) reads.recipients)
include hafter

theorem create_after : (planMirror domain externalDomain { reads with recipients := after }).create = [] := by
  rw [List.eq_nil_iff_forall_not_mem]
  intro a hmem
  obtain ⟨ha, hnone, htaken⟩ := mem_create.mp hmem
  have ha : a ∈ (planMirror domain externalDomain reads).desired := ha
  cases hc : contactAt domain reads.recipients a with
  | none =>
    by_cases ht : Taken domain reads.recipients a
    · obtain ⟨r, hr, hcontact, hheld⟩ := ht
      exact htaken ⟨r, (hafter r).mpr (mem_applied_other hr hcontact), hcontact, hheld⟩
    · have hcreate := mem_create.mpr ⟨ha, hc, ht⟩
      have hnew : (newContact a externalDomain).contactOf domain := by simp [newContact, Recipient.contactOf, domain_of_desired ha]
      exact contactAt_eq_none.mp hnone _ ((hafter _).mpr ((mem_applied_contact hnew rfl).mpr (.inr ⟨hcreate, rfl⟩))) hnew rfl
  | some c =>
    obtain ⟨hc, hcontact, hp⟩ := contactAt_eq_some hc
    have hkept : a ∉ (planMirror domain externalDomain reads).remove := fun h => (mem_remove.mp h).2.1 ha
    have hcontact' : (c.written (planMirror domain externalDomain reads) externalDomain).contactOf domain := hcontact
    exact contactAt_eq_none.mp hnone _ ((hafter _).mpr ((mem_applied_contact hcontact' hp).mpr (.inl ⟨c, hc, hcontact, hp, hkept, rfl⟩))) hcontact' hp

theorem retarget_after (hone : OneHolder reads.recipients) : (planMirror domain externalDomain { reads with recipients := after }).retarget = [] := by
  rw [List.eq_nil_iff_forall_not_mem]
  intro a hmem
  obtain ⟨ha, c, hat, hext⟩ := mem_retarget.mp hmem
  obtain ⟨hc, hcontact, hp⟩ := contactAt_eq_some hat
  exact hext (applied_contact hone ha hcontact hp ((hafter c).mp hc)).1

theorem hide_after (hone : OneHolder reads.recipients) : (planMirror domain externalDomain { reads with recipients := after }).hide = [] := by
  rw [List.eq_nil_iff_forall_not_mem]
  intro a hmem
  obtain ⟨ha, c, hat, hhidden⟩ := mem_hide.mp hmem
  obtain ⟨hc, hcontact, hp⟩ := contactAt_eq_some hat
  rw [(applied_contact hone ha hcontact hp ((hafter c).mp hc)).2] at hhidden
  cases hhidden

theorem remove_after : (planMirror domain externalDomain { reads with recipients := after }).remove = [] := by
  rw [List.eq_nil_iff_forall_not_mem]
  intro a hmem
  obtain ⟨hagain, ha, r, hr, hcontact, hp⟩ := mem_remove.mp hmem
  have ha : a ∉ (planMirror domain externalDomain reads).desired := ha
  rcases (mem_applied_contact hcontact hp).mp ((hafter r).mp hr) with ⟨r', hr', hcontact', hp', hkept, rfl⟩ | ⟨hcreate, -⟩
  · -- a contact nobody needs stays only after an answer not to remove by, and that answer is the same again
    have hsuspicious : (planMirror domain externalDomain reads).suspicious := by
      by_contra h
      exact hkept (mem_remove.mpr ⟨Bool.eq_false_iff.mpr h, ha, r', hr', hcontact', hp'⟩)
    obtain ⟨hempty, -⟩ := suspicious_iff.mp hsuspicious
    exact Bool.eq_false_iff.mp hagain (suspicious_iff.mpr ⟨hempty, .inr ⟨_, hr, hcontact⟩⟩)
  · exact ha (mem_create.mp hcreate).1

end After

/-- The parts of a plan are those of the desired addresses, `remove` names contacts nobody needs and nothing after a suspicious answer, and the
plan after one that is applied in full asks for no write. It makes no contact at an address that is held exactly when no contact of the domain
holds a desired address that is not its primary one. -/
theorem planMirror_converges (domain : String) (externalDomain : Option String) (reads : Reads) (hone : OneHolder reads.recipients) :
    let plan := planMirror domain externalDomain reads
    plan.desired.Nodup ∧
    (plan.create ++ plan.retarget ++ plan.present ++ plan.conflicts.filter fun a => (contactAt domain reads.recipients a).isNone).Perm plan.desired ∧
    ((∀ a ∈ plan.create, ∀ r ∈ reads.recipients, a ∉ addressesOf r) ↔
      ∀ a ∈ plan.desired, ∀ r ∈ reads.recipients, r.contactOf domain → a ∈ addressesOf r → r.primary = some a) ∧
    (∀ a ∈ plan.remove, a ∉ plan.desired ∧ ∃ r ∈ reads.recipients, r.contactOf domain ∧ r.primary = some a) ∧
    (plan.suspicious → plan.remove = []) ∧
    ∀ after, (∀ r, r ∈ after ↔ r ∈ applied domain externalDomain plan reads.recipients) →
      let again := planMirror domain externalDomain { reads with recipients := after }
      again.create = [] ∧ again.retarget = [] ∧ again.hide = [] ∧ again.remove = [] := by
  intro plan
  refine ⟨nodup_desired, parts_perm, ⟨fun hfree a ha r hr hc hheld => ?_, fun hown a ha r hr hheld => ?_⟩, fun a ha => (mem_remove.mp ha).2,
    remove_eq_nil, fun after hafter => ⟨create_after hafter, retarget_after hafter hone, hide_after hafter hone, remove_after hafter⟩⟩
  · by_contra hp
    have hnone : contactAt domain reads.recipients a = none := contactAt_eq_none.mpr fun c hmem _ hcp =>
      hp (hone.eq hmem hr (mem_addressesOf.mpr (.inl hcp)) hheld ▸ hcp)
    have htaken : ¬Taken domain reads.recipients a := by
      rintro ⟨c, hmem, hother, hcheld⟩
      rw [hone.eq hmem hr hcheld hheld, hc] at hother
      cases hother
    exact hfree a (mem_create.mpr ⟨ha, hnone, htaken⟩) r hr hheld
  · obtain ⟨hd, hnone, htaken⟩ := mem_create.mp ha
    cases hc : r.contactOf domain with
    | false => exact htaken ⟨r, hr, hc, hheld⟩
    | true => exact contactAt_eq_none.mp hnone r hr hc (hown a hd r hr hc hheld)

/-- The contact `a@d`, which takes mail for `b@d` too, and the node's mailbox `b@d`. -/
def secondaryReads : Reads where
  mailboxes := [{ email := { name := "a", domain := "d" }, state := 1 }, { email := { name := "b", domain := "d" }, state := 1 }]
  aliases := []
  panel := []
  recipients := [{
    mailContact := true
    primary := some { name := "a", domain := "d" }
    emailAddresses := [{ name := "a", domain := "d" }, { name := "b", domain := "d" }]
    external := some { name := "a", domain := "d" }
    hidden := true }]

theorem planMirror_converges_secondary :
    (planMirror "d" none { secondaryReads with recipients := applied "d" none (planMirror "d" none secondaryReads) secondaryReads.recipients }).create = [] ∧
      (planMirror "d" none secondaryReads).desired.Nodup :=
  have h := planMirror_converges "d" none secondaryReads (by decide)
  ⟨(h.2.2.2.2.2 _ fun _ => Iff.rfl).1, h.1⟩

/-- An address that a contact holds beside its primary one gets a contact of its own. -/
theorem not_planMirror_converges : OneHolder secondaryReads.recipients ∧ (planMirror "d" none secondaryReads).create = [{ name := "b", domain := "d" }] ∧
    ∃ r ∈ secondaryReads.recipients, ({ name := "b", domain := "d" } : Address) ∈ addressesOf r := by
  refine ⟨by decide, by decide +kernel, by decide⟩

end MailExpert.TenantDomains
