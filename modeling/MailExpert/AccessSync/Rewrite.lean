import MailExpert.AccessSync.Again

/-!
# What a rewrite of the policy leaves alone

`buildInclude` keeps the rules that are nobody's of MailExpert (`foreign`), lists what it says, and has nothing to change in what it
wrote.
-/

namespace MailExpert.AccessSync

variable {toLowerCase : String → String} {policy : Policy} {rules : List Rule} {baseline desired : List String} {e : String}

/-- The rule names no email, or one that MailExpert neither wrote nor wants. -/
def foreign (toLowerCase : String → String) (baseline desired : List String) (rule : Rule) : Bool :=
  !isEmailRule toLowerCase rule || ruleEmail toLowerCase rule ∉ baseline && ruleEmail toLowerCase rule ∉ desired

def wantedRules (desired : List String) : List Rule := (sorted desired).map fun email => { email := some email }

theorem includes_eq : (buildInclude toLowerCase policy baseline desired).includes =
    policy.includes.filter (foreign toLowerCase baseline desired) ++ wantedRules desired := by
  simp only [buildInclude, wantedRules, mem_sorted]
  rfl

theorem ruleEmails_append {rules' : List Rule} :
    ruleEmails toLowerCase (rules ++ rules') = ruleEmails toLowerCase rules ++ ruleEmails toLowerCase rules' := by
  rw [ruleEmails, List.map_append, List.filter_append]
  rfl

theorem ruleEmails_wantedRules (hdesired : ∀ e ∈ desired, Normal toLowerCase e) :
    ruleEmails toLowerCase (wantedRules desired) = sorted desired := by
  have hmap : (wantedRules desired).map (ruleEmail toLowerCase) = sorted desired := by
    rw [wantedRules, List.map_map]
    refine (List.map_congr_left fun e he => ?_).trans (List.map_id _)
    exact (hdesired e (mem_sorted.mp he)).ruleEmail
  rw [ruleEmails, hmap, List.filter_eq_self]
  exact fun e he => decide_eq_true (hdesired e (mem_sorted.mp he)).nonempty

theorem filter_wantedRules (hdesired : ∀ e ∈ desired, Normal toLowerCase e) :
    (wantedRules desired).filter (foreign toLowerCase baseline desired) = [] := by
  rw [List.filter_eq_nil_iff]
  intro rule hrule hforeign
  obtain ⟨e, he, rfl⟩ := List.mem_map.mp hrule
  have hnormal := hdesired e (mem_sorted.mp he)
  rw [foreign, isEmailRule, hnormal.ruleEmail] at hforeign
  simp [hnormal.nonempty, mem_sorted.mp he] at hforeign

theorem not_mem_kept (he : e ∈ desired) :
    e ∉ ruleEmails toLowerCase (policy.includes.filter (foreign toLowerCase baseline desired)) := by
  intro hmem
  obtain ⟨rule, hrule, rfl, hne⟩ := mem_ruleEmails.mp hmem
  have hforeign := (List.mem_filter.mp hrule).2
  simp [foreign, isEmailRule, hne, he] at hforeign

theorem count_built (hdesired : ∀ e ∈ desired, Normal toLowerCase e) (he : e ∈ desired) :
    (ruleEmails toLowerCase (buildInclude toLowerCase policy baseline desired).includes).count e = 1 := by
  rw [includes_eq, ruleEmails_append, ruleEmails_wantedRules hdesired, List.count_append, List.count_eq_zero_of_not_mem (not_mem_kept he),
    Nat.zero_add]
  exact List.count_eq_one_of_mem nodup_sorted (mem_sorted.mpr he)

theorem mem_added : e ∈ (buildInclude toLowerCase policy baseline desired).added ↔
    e ∈ desired ∧ e ∉ ruleEmails toLowerCase policy.includes := by
  simp only [buildInclude, List.mem_filter, mem_sorted, decide_eq_true_eq]

theorem mem_removed : e ∈ (buildInclude toLowerCase policy baseline desired).removed ↔
    e ∈ ruleEmails toLowerCase policy.includes ∧ e ∈ baseline ∧ e ∉ desired := by
  simp only [buildInclude, List.mem_filter, mem_sorted, Bool.and_eq_true, decide_eq_true_eq]

/-- A rewrite keeps the foreign rules in order, lists what was listed and not MailExpert's and what is desired, reports the difference, and
finds nothing to change in its own result. -/
theorem rewrite_touches_own (hdesired : ∀ e ∈ desired, Normal toLowerCase e) :
    let built := buildInclude toLowerCase policy baseline desired
    let before := ruleEmails toLowerCase policy.includes
    let after := ruleEmails toLowerCase built.includes
    built.includes.filter (foreign toLowerCase baseline desired) = policy.includes.filter (foreign toLowerCase baseline desired) ∧
    (∀ e, e ∈ after ↔ e ∈ before ∧ e ∉ baseline ∨ e ∈ desired) ∧
    (∀ e ∈ desired, after.count e = 1) ∧
    (built.added.Nodup ∧ ∀ e, e ∈ built.added ↔ e ∈ after ∧ e ∉ before) ∧
    (built.removed.Nodup ∧ ∀ e, e ∈ built.removed ↔ e ∈ before ∧ e ∉ after) ∧
    (buildInclude toLowerCase { policy with includes := built.includes } desired desired).changed = false := by
  have hafter (e : String) : e ∈ ruleEmails toLowerCase (buildInclude toLowerCase policy baseline desired).includes ↔
      e ∈ ruleEmails toLowerCase policy.includes ∧ e ∉ baseline ∨ e ∈ desired := mem_ruleEmails_built hdesired
  refine ⟨?_, hafter, fun e he => count_built hdesired he, ⟨nodup_sorted.filter _, fun e => ?_⟩, ⟨nodup_sorted, fun e => ?_⟩, ?_⟩
  · rw [includes_eq, List.filter_append, filter_wantedRules hdesired, List.append_nil, List.filter_filter]
    simp only [Bool.and_self]
  · rw [mem_added, hafter]
    tauto
  · rw [mem_removed, hafter]
    tauto
  · rw [changed_eq_false]
    exact ⟨fun e he => (hafter e).mpr (.inr he), fun _ _ h => h⟩

/-- A policy with a rule of a group, an address of somebody else, one that MailExpert wrote twice and a desired one in capitals. -/
theorem rewrite_touches_own_example :
    let rules : List Rule := [{ other := some "group" }, { email := some " Other@x.org" }, { email := some "old@x.org" },
      { email := some "OLD@x.org" }, { email := some "New@x.org" }]
    let built := buildInclude String.toLower { includes := rules } ["old@x.org"] ["new@x.org"]
    built.includes.filter (foreign String.toLower ["old@x.org"] ["new@x.org"]) =
      rules.filter (foreign String.toLower ["old@x.org"] ["new@x.org"]) := by
  have hdesired : ∀ e ∈ ["new@x.org"], Normal String.toLower e := by
    intro e he
    obtain rfl := List.mem_singleton.mp he
    exact ⟨by decide +kernel, by decide +kernel, by decide⟩
  exact (rewrite_touches_own hdesired).1

end MailExpert.AccessSync
