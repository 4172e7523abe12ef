import Mathlib

/-!
# A list of agents

Several runs, requests or workers are kept as a list and named by their index; one step moves one of them, or adds one
at the end.
-/

namespace Agents

variable {α : Type*} {l : List α} {a b c : α} {i j : Nat}

theorem getElem?_set_some (h : l[i]? = some a) :
    (l.set i b)[j]? = some c ↔ (i = j ∧ c = b) ∨ (i ≠ j ∧ l[j]? = some c) := by
  rw [List.getElem?_set]
  have hlen : i < l.length := (List.getElem?_eq_some_iff.mp h).1
  by_cases hij : i = j
  · subst hij
    simp [hlen, eq_comm]
  · simp [hij]

theorem getElem?_append_some : (l ++ [b])[j]? = some c ↔ l[j]? = some c ∨ (j = l.length ∧ c = b) := by
  rw [List.getElem?_append]
  split
  next hlt =>
    refine ⟨.inl, fun h => h.resolve_right ?_⟩
    rintro ⟨rfl, -⟩
    exact lt_irrefl _ hlt
  next hlt =>
    constructor
    · intro h
      obtain ⟨hj, rfl⟩ := List.getElem?_eq_some_iff.mp h
      simp only [List.length_singleton] at hj
      exact .inr ⟨by omega, by simp⟩
    · rintro (h | ⟨rfl, rfl⟩)
      · exact absurd (List.getElem?_eq_some_iff.mp h).1 hlt
      · simp

/-- A sum over the agents after one of them moved. -/
theorem sum_map_set {f : α → Nat} (h : l[i]? = some a) : ((l.set i b).map f).sum + f a = (l.map f).sum + f b := by
  induction l generalizing i with
  | nil => cases h
  | cons x xs ih =>
    cases i with
    | zero =>
      cases h
      simp only [List.set_cons_zero, List.map_cons, List.sum_cons]
      omega
    | succ i =>
      have := ih (List.getElem?_cons_succ ▸ h)
      simp only [List.set_cons_succ, List.map_cons, List.sum_cons]
      omega

/-- How many agents there are of a kind after one of them moved. -/
theorem countP_set {p : α → Bool} (h : l[i]? = some a) :
    (l.set i b).countP p + (if p a then 1 else 0) = l.countP p + if p b then 1 else 0 := by
  obtain ⟨hi, rfl⟩ := List.getElem?_eq_some_iff.mp h
  rw [List.countP_set hi]
  have hpos : p l[i] = true → 0 < l.countP p := fun hp => List.countP_pos_iff.mpr ⟨_, List.getElem_mem hi, hp⟩
  by_cases hp : p l[i]
  · have := hpos hp
    simp only [hp, if_true]
    omega
  · simp [hp]

end Agents
