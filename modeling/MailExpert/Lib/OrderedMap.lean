import Mathlib

/-!
# Maps in the order of insertion

A `Map` of JavaScript: a new key comes last, a key that is set again keeps its place, and a deleted one leaves none.
-/

universe u v

/-- Values under keys, in the order in which the keys came. -/
structure OrderedMap (κ : Type u) (ν : Type v) where
  entries : List (κ × ν)
  nodup : (entries.map Prod.fst).Nodup

namespace OrderedMap

variable {κ : Type u} {ν : Type v}

theorem nodup_nil : (([] : List (κ × ν)).map Prod.fst).Nodup := List.nodup_nil

def empty : OrderedMap κ ν := ⟨[], nodup_nil⟩

instance : Inhabited (OrderedMap κ ν) := ⟨empty⟩

theorem nodup_filter (m : OrderedMap κ ν) (p : κ × ν → Bool) : ((m.entries.filter p).map Prod.fst).Nodup :=
  m.nodup.sublist (List.filter_sublist.map _)

def oldest (m : OrderedMap κ ν) : Option κ := m.entries.head?.map Prod.fst

theorem oldest_eq_none {m : OrderedMap κ ν} : m.oldest = none ↔ m.entries = [] := by simp [oldest]

variable [DecidableEq κ]

instance [DecidableEq ν] : DecidableEq (OrderedMap κ ν) := fun m m' =>
  decidable_of_iff (m.entries = m'.entries) ⟨fun h => by cases m; cases m'; cases h; rfl, fun h => h ▸ rfl⟩

/-- `map.get(key)` -/
def get? (m : OrderedMap κ ν) (k : κ) : Option ν := (m.entries.find? fun e => e.1 = k).map Prod.snd

/-- `map.delete(key)` -/
def delete (m : OrderedMap κ ν) (k : κ) : OrderedMap κ ν := ⟨m.entries.filter fun e => e.1 ≠ k, m.nodup_filter _⟩

/-- The entries after `map.set(key, value)`. -/
def setEntries (m : OrderedMap κ ν) (k : κ) (v : ν) : List (κ × ν) :=
  if (m.get? k).isSome then m.entries.map fun e => if e.1 = k then (k, v) else e else m.entries ++ [(k, v)]

variable {m : OrderedMap κ ν} {k k' : κ} {v : ν}

theorem get?_eq_some : m.get? k = some v ↔ (k, v) ∈ m.entries := by
  simp only [get?, Option.map_eq_some_iff]
  constructor
  · rintro ⟨⟨k', v'⟩, hfind, rfl⟩
    have hk : k' = k := by simpa using List.find?_some hfind
    subst hk
    exact List.mem_of_find?_eq_some hfind
  · intro hmem
    have hsome : (m.entries.find? fun e => e.1 = k).isSome = true := List.find?_isSome.mpr ⟨_, hmem, by simp⟩
    obtain ⟨⟨k', v'⟩, hfind⟩ := Option.isSome_iff_exists.mp hsome
    have hk : k' = k := by simpa using List.find?_some hfind
    subst hk
    have heq : (k', v') = (k', v) := List.inj_on_of_nodup_map m.nodup (List.mem_of_find?_eq_some hfind) hmem rfl
    cases heq
    exact ⟨_, hfind, rfl⟩

theorem get?_eq_none : m.get? k = none ↔ ∀ e ∈ m.entries, e.1 ≠ k := by
  simp [get?, List.find?_eq_none]

theorem nodup_setEntries (m : OrderedMap κ ν) (k : κ) (v : ν) : ((m.setEntries k v).map Prod.fst).Nodup := by
  unfold setEntries
  split
  next =>
    have hkeys : (m.entries.map fun e => if e.1 = k then (k, v) else e).map Prod.fst = m.entries.map Prod.fst := by
      rw [List.map_map]
      refine List.map_congr_left fun e _ => ?_
      simp only [Function.comp_apply]
      split
      next h => exact h.symm
      next => rfl
    exact hkeys ▸ m.nodup
  next h =>
    have hnone : ∀ e ∈ m.entries, e.1 ≠ k := get?_eq_none.mp (by simpa using h)
    rw [List.map_append, List.nodup_append]
    refine ⟨m.nodup, List.nodup_singleton _, ?_⟩
    rintro a ha b hb rfl
    obtain ⟨e, he, rfl⟩ := List.mem_map.mp ha
    exact hnone e he (List.mem_singleton.mp hb)

/-- `map.set(key, value)` -/
def set (m : OrderedMap κ ν) (k : κ) (v : ν) : OrderedMap κ ν := ⟨m.setEntries k v, m.nodup_setEntries k v⟩

theorem mem_delete {e : κ × ν} : e ∈ (m.delete k).entries ↔ e ∈ m.entries ∧ e.1 ≠ k := by
  simp [delete]

@[simp] theorem get?_delete_self : (m.delete k).get? k = none := get?_eq_none.mpr fun _ he => (mem_delete.mp he).2

theorem mem_set {e : κ × ν} (h : e ∈ (m.set k v).entries) : e = (k, v) ∨ (e ∈ m.entries ∧ e.1 ≠ k) := by
  simp only [set, setEntries] at h
  split at h
  · obtain ⟨e', he', rfl⟩ := List.mem_map.mp h
    split
    next => exact .inl rfl
    next hne => exact .inr ⟨he', hne⟩
  next hnone =>
    rw [List.mem_append, List.mem_singleton] at h
    refine h.symm.imp_right fun he => ⟨he, ?_⟩
    exact get?_eq_none.mp (by simpa using hnone) e he

/-- A key that is not there comes last. -/
theorem entries_set_of_none (h : m.get? k = none) : (m.set k v).entries = m.entries ++ [(k, v)] := by
  simp [set, setEntries, h]

def sum (m : OrderedMap κ ν) (f : ν → Nat) : Nat := (m.entries.map fun e => f e.2).sum

variable {f : ν → Nat}

theorem sum_filter_ne {l : List (κ × ν)} (hnodup : (l.map Prod.fst).Nodup) (h : (k, v) ∈ l) :
    ((l.filter fun e => e.1 ≠ k).map fun e => f e.2).sum + f v = (l.map fun e => f e.2).sum := by
  induction l with
  | nil => cases h
  | cons e l ih =>
    obtain ⟨hnot, hrest⟩ := List.nodup_cons.mp hnodup
    simp only [List.map_cons, List.sum_cons]
    by_cases hk : e.1 = k
    · subst hk
      have hv : e.2 = v := by
        obtain heq | hmem := List.mem_cons.mp h
        · exact (congrArg Prod.snd heq).symm
        · exact absurd (List.mem_map_of_mem (f := Prod.fst) hmem) hnot
      have hothers : l.filter (fun e' => e'.1 ≠ e.1) = l := List.filter_eq_self.mpr fun e' he' => by
        have : e'.1 ≠ e.1 := fun heq => hnot (heq ▸ List.mem_map_of_mem he')
        simpa using this
      rw [List.filter_cons_of_neg (by simp), hothers, hv]
      omega
    · have hmem : (k, v) ∈ l := (List.mem_cons.mp h).resolve_left fun heq => hk (heq ▸ rfl)
      rw [List.filter_cons_of_pos (by simpa using hk)]
      have := ih hrest hmem
      simp only [List.map_cons, List.sum_cons]
      omega

theorem sum_delete (h : m.get? k = some v) : (m.delete k).sum f + f v = m.sum f := sum_filter_ne m.nodup (get?_eq_some.mp h)

theorem sum_set_of_none (h : m.get? k = none) : (m.set k v).sum f = m.sum f + f v := by
  simp [sum, entries_set_of_none h]

theorem sum_map_ite {l : List (κ × ν)} {old : ν} (hnodup : (l.map Prod.fst).Nodup) (h : (k, old) ∈ l) :
    ((l.map fun e => if e.1 = k then (k, v) else e).map fun e => f e.2).sum + f old = (l.map fun e => f e.2).sum + f v := by
  induction l with
  | nil => cases h
  | cons e l ih =>
    obtain ⟨hnot, hrest⟩ := List.nodup_cons.mp hnodup
    simp only [List.map_cons, List.sum_cons]
    by_cases hk : e.1 = k
    · subst hk
      have hothers : (l.map fun e' => if e'.1 = e.1 then (e.1, v) else e') = l := by
        refine (List.map_congr_left fun e' he' => ?_).trans (List.map_id _)
        have hne : e'.1 ≠ e.1 := fun heq => hnot (heq ▸ List.mem_map_of_mem he')
        simp [hne]
      have hv : e.2 = old := by
        obtain heq | hmem := List.mem_cons.mp h
        · exact (congrArg Prod.snd heq).symm
        · exact absurd (List.mem_map_of_mem (f := Prod.fst) hmem) hnot
      rw [hothers, hv]
      simp only [if_true]
      omega
    · have hmem : (k, old) ∈ l := (List.mem_cons.mp h).resolve_left fun heq => hk (heq ▸ rfl)
      have := ih hrest hmem
      rw [if_neg hk]
      omega

theorem sum_set_of_some {old : ν} (h : m.get? k = some old) : (m.set k v).sum f + f old = m.sum f + f v := by
  simp only [sum, set, setEntries, h, Option.isSome_some, if_true]
  exact sum_map_ite m.nodup (get?_eq_some.mp h)

theorem entries_delete_oldest (h : m.oldest = some k) : (m.delete k).entries = m.entries.tail := by
  obtain ⟨entries, hnodup⟩ := m
  cases entries with
  | nil => cases h
  | cons e l =>
    cases h
    obtain ⟨hnot, -⟩ := List.nodup_cons.mp hnodup
    simp only [delete, List.tail_cons]
    rw [List.filter_cons_of_neg (by simp)]
    refine List.filter_eq_self.mpr fun e' he' => ?_
    have hne : e'.1 ≠ e.1 := fun heq => hnot (heq ▸ List.mem_map_of_mem he')
    simpa using hne

theorem get?_oldest (h : m.oldest = some k) : ∃ v, m.get? k = some v := by
  obtain ⟨e, he, rfl⟩ := Option.map_eq_some_iff.mp h
  exact ⟨e.2, get?_eq_some.mpr (List.mem_of_mem_head? he)⟩

end OrderedMap
