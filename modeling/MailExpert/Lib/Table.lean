import Mathlib

/-!
# Tables keyed by their primary key

A table is an association list without repeated keys, so a key names at most one row by
construction. `update`, `delete` and `select` are the statements with a `WHERE` clause: each is
characterised by what it does to the row of one key (`lookup_update`, `lookup_delete`,
`mem_select`), which is all later proofs use.
-/

universe u v

/-- Rows `ρ` under a primary key `κ`. -/
abbrev Table (κ : Type u) (ρ : Type v) := AList (fun _ : κ => ρ)

namespace Table

variable {κ : Type u} {ρ : Type v}

/-- The rows, each under its key. -/
def select (t : Table κ ρ) (p : κ → ρ → Bool) : List (κ × ρ) :=
  (t.entries.filter fun e => p e.1 e.2).map fun e => (e.1, e.2)

/-- `UPDATE … SET f WHERE p`. -/
def update (t : Table κ ρ) (p : κ → ρ → Bool) (f : κ → ρ → ρ) : Table κ ρ where
  entries := t.entries.map fun e => ⟨e.1, if p e.1 e.2 then f e.1 e.2 else e.2⟩
  nodupKeys := by
    have h : (t.entries.map fun e => (⟨e.1, if p e.1 e.2 then f e.1 e.2 else e.2⟩ :
        (_ : κ) × ρ)).keys = t.entries.keys := by simp [List.keys, Function.comp_def]
    rw [List.NodupKeys, h]
    exact t.nodupKeys

/-- `DELETE … WHERE p`. -/
def delete (t : Table κ ρ) (p : κ → ρ → Bool) : Table κ ρ where
  entries := t.entries.filter fun e => !p e.1 e.2
  nodupKeys := t.nodupKeys.sublist List.filter_sublist

variable {t : Table κ ρ} {k : κ} {r : ρ}

theorem nodup_select {p : κ → ρ → Bool} : (t.select p).Nodup := by
  refine (t.nodupKeys.nodup.filter _).map ?_
  rintro ⟨k, r⟩ ⟨k', r'⟩ h
  cases h
  rfl

variable [DecidableEq κ]

theorem mem_entries : (⟨k, r⟩ : (_ : κ) × ρ) ∈ t.entries ↔ t.lookup k = some r :=
  (AList.mem_lookup_iff (s := t)).symm

@[simp] theorem mem_select {p : κ → ρ → Bool} :
    (k, r) ∈ t.select p ↔ t.lookup k = some r ∧ p k r = true := by
  simp only [select, List.mem_map, List.mem_filter, Sigma.exists, Prod.mk.injEq]
  constructor
  · rintro ⟨k', r', ⟨hm, hp⟩, rfl, rfl⟩
    exact ⟨mem_entries.mp hm, hp⟩
  · rintro ⟨hm, hp⟩
    exact ⟨k, r, ⟨mem_entries.mpr hm, hp⟩, rfl, rfl⟩

theorem all_of_entries {p : κ → ρ → Bool} (h : (t.entries.all fun e => p e.1 e.2) = true)
    (hk : t.lookup k = some r) : p k r = true :=
  List.all_eq_true.mp h ⟨k, r⟩ (mem_entries.mpr hk)

theorem lookup_eq_of_forall {t : Table κ ρ} {o : Option ρ}
    (h : ∀ r, t.lookup k = some r ↔ o = some r) : t.lookup k = o := by
  cases o with
  | none =>
    cases hk : t.lookup k with
    | none => rfl
    | some r => exact absurd ((h r).mp hk) nofun
  | some r => exact (h r).mpr rfl

@[simp] theorem lookup_update {p : κ → ρ → Bool} {f : κ → ρ → ρ} :
    (t.update p f).lookup k = (t.lookup k).map fun r => if p k r then f k r else r := by
  apply lookup_eq_of_forall
  intro r
  rw [← mem_entries]
  simp only [update, List.mem_map, Sigma.exists, Sigma.mk.injEq, Option.map_eq_some_iff]
  constructor
  · rintro ⟨k', r', hm, rfl, h⟩
    exact ⟨r', mem_entries.mp hm, eq_of_heq h⟩
  · rintro ⟨r', hm, rfl⟩
    exact ⟨k, r', mem_entries.mpr hm, rfl, .rfl⟩

@[simp] theorem lookup_delete {p : κ → ρ → Bool} :
    (t.delete p).lookup k = (t.lookup k).filter fun r => !p k r := by
  apply lookup_eq_of_forall
  intro r
  rw [← mem_entries]
  simp only [delete, List.mem_filter, mem_entries, Option.filter_eq_some_iff]

theorem lookup_delete_key {q : κ → Bool} :
    (t.delete fun k _ => q k).lookup k = if q k = true then none else t.lookup k := by
  rw [lookup_delete]
  cases q k <;> cases t.lookup k <;> rfl

/-- `SELECT … WHERE p LIMIT 1`, in storage order. -/
def find? (t : Table κ ρ) (p : κ → ρ → Bool) : Option (κ × ρ) := (t.select p).head?

theorem find?_some {p : κ → ρ → Bool} (h : t.find? p = some (k, r)) :
    t.lookup k = some r ∧ p k r = true :=
  mem_select.mp (List.mem_of_head? h)

theorem find?_none {p : κ → ρ → Bool} (h : t.find? p = none) (hk : t.lookup k = some r) :
    p k r = false := by
  have hn := List.head?_eq_none_iff.mp h
  cases hp : p k r with
  | false => rfl
  | true => exact absurd (mem_select.mpr ⟨hk, hp⟩) (by simp [hn])

/-- `UPDATE … SET f WHERE key = k`. -/
def modify (t : Table κ ρ) (k : κ) (f : ρ → ρ) : Table κ ρ :=
  t.update (fun k' _ => k' = k) fun _ => f

@[simp] theorem lookup_modify_self {f : ρ → ρ} : (t.modify k f).lookup k = (t.lookup k).map f := by
  simp [modify]

theorem lookup_modify_ne {f : ρ → ρ} {k' : κ} (h : k' ≠ k) :
    (t.modify k f).lookup k' = t.lookup k' := by
  simp [modify, h]

theorem lookup_modify {f : ρ → ρ} {k' : κ} :
    (t.modify k f).lookup k' = if k' = k then (t.lookup k).map f else t.lookup k' := by
  split
  · next h => rw [h, lookup_modify_self]
  · next h => exact lookup_modify_ne h

/-- A change of a row that is known writes what it makes of that row. -/
theorem modify_of_lookup {f : ρ → ρ} (h : t.lookup k = some r) :
    t.modify k f = t.modify k fun _ => f r := by
  rw [modify, modify, update, update]
  congr 1
  apply List.map_congr_left
  rintro ⟨k', r'⟩ hmem
  by_cases hk : k' = k
  · subst hk
    rw [mem_entries, h] at hmem
    cases hmem
    rfl
  · simp [hk]

theorem lookup_insert' {k' : κ} :
    (t.insert k r).lookup k' = if k' = k then some r else t.lookup k' := by
  split
  · next h => rw [h, AList.lookup_insert]
  · next h => exact AList.lookup_insert_ne h

def insertAll (t : Table κ ρ) (l : List (κ × ρ)) : Table κ ρ := l.foldl (fun t e => t.insert e.1 e.2) t

theorem mem_of_lookup_insertAll {l : List (κ × ρ)} (h : (t.insertAll l).lookup k = some r) :
    (k, r) ∈ l ∨ t.lookup k = some r := by
  induction l generalizing t with
  | nil => exact .inr h
  | cons e l ih =>
    rcases ih h with hm | h
    · exact .inl (List.mem_cons_of_mem _ hm)
    · rw [lookup_insert'] at h
      split at h
      · next hk =>
        cases h
        exact .inl (hk ▸ List.mem_cons_self)
      · exact .inr h

theorem lookup_insertAll_of_some {l : List (κ × ρ)} (h : t.lookup k = some r) :
    ∃ r', (t.insertAll l).lookup k = some r' := by
  induction l generalizing t r with
  | nil => exact ⟨r, h⟩
  | cons e l ih =>
    by_cases hk : k = e.1
    · refine @ih (t.insert e.1 e.2) e.2 ?_
      rw [hk, AList.lookup_insert]
    · exact ih ((AList.lookup_insert_ne hk).trans h)

/-- One row under several keys. -/
theorem lookup_insertAll_const {l : List κ} :
    (t.insertAll (l.map fun k => (k, r))).lookup k = if k ∈ l then some r else t.lookup k := by
  induction l generalizing t with
  | nil => rfl
  | cons k' l ih =>
    refine (@ih (t.insert k' r)).trans ?_
    rw [lookup_insert']
    by_cases hl : k ∈ l
    · rw [if_pos hl, if_pos (List.mem_cons_of_mem _ hl)]
    · by_cases hk : k = k'
      · rw [if_neg hl, if_pos hk, if_pos (hk ▸ List.mem_cons_self)]
      · rw [if_neg hl, if_neg hk, if_neg (by simp [hk, hl])]

theorem lookup_erase' {k' : κ} :
    (t.erase k).lookup k' = if k' = k then none else t.lookup k' := by
  split
  · next h => rw [h, AList.lookup_erase]
  · next h => exact AList.lookup_erase_ne h

/-- `DELETE … WHERE key = k'` and `UPDATE … SET f WHERE p`. -/
theorem lookup_erase_update {p : κ → ρ → Bool} {f : κ → ρ → ρ} {k' : κ} :
    (Table.update (t.erase k') p f).lookup k = some r ↔
      k ≠ k' ∧ ∃ r', t.lookup k = some r' ∧ r = if p k r' then f k r' else r' := by
  rw [lookup_update, lookup_erase']
  split
  · next h => simp [h]
  · next h =>
    simp only [Option.map_eq_some_iff, ne_eq, h, not_false_eq_true, true_and]
    constructor
    · rintro ⟨r', hr, rfl⟩
      exact ⟨r', hr, rfl⟩
    · rintro ⟨r', hr, rfl⟩
      exact ⟨r', hr, rfl⟩

end Table
