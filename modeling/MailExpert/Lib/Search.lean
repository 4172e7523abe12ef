import Mathlib

/-!
# Searching a text from the left

`first M n i` is the first position from `i` to `n` where `M` finds something, `occurrences` are those that a search finds which goes on behind
each of them, and `splice` writes something in their place. A loop that finds the same occurrences by other steps is compared with them by
`occurrences_skip`, `occurrences_found` and `occurrences_none`.
-/

universe u v

namespace Search

variable {α : Type u} {β : Type v} {M : Nat → Option β} {last : β → Nat} {n i j k : Nat} {b : β} {t : List α}

def upTo (M : Nat → Option β) : Nat → Nat → Option (Nat × β)
  | 0, _ => none
  | fuel + 1, i => (M i).elim (upTo M fuel (i + 1)) fun b => some (i, b)

def first (M : Nat → Option β) (n i : Nat) : Option (Nat × β) := upTo M (n + 1 - i) i

theorem upTo_eq_some {fuel : Nat} :
    upTo M fuel i = some (k, b) ↔ i ≤ k ∧ k < i + fuel ∧ M k = some b ∧ ∀ j, i ≤ j → j < k → M j = none := by
  induction fuel generalizing i with
  | zero =>
    refine iff_of_false (by simp [upTo]) ?_
    rintro ⟨h1, h2, -⟩
    omega
  | succ fuel ih =>
    rw [upTo]
    cases hi : M i with
    | some c =>
      rw [Option.elim_some, Option.some_inj, Prod.mk.injEq]
      constructor
      · rintro ⟨rfl, rfl⟩
        exact ⟨le_rfl, by omega, hi, fun j h1 h2 => absurd h2 (by omega)⟩
      · rintro ⟨hle, -, hk, hnone⟩
        rcases hle.eq_or_lt with rfl | hlt
        · exact ⟨rfl, Option.some_inj.mp (hi ▸ hk)⟩
        · rw [hnone i le_rfl hlt] at hi
          cases hi
    | none =>
      rw [Option.elim_none, ih]
      constructor
      · rintro ⟨hle, hlt, hk, hnone⟩
        refine ⟨by omega, by omega, hk, fun j h1 h2 => ?_⟩
        rcases h1.eq_or_lt with rfl | h1
        · exact hi
        · exact hnone j h1 h2
      · rintro ⟨hle, hlt, hk, hnone⟩
        rcases hle.eq_or_lt with rfl | hle
        · rw [hk] at hi
          cases hi
        · exact ⟨hle, by omega, hk, fun j h1 h2 => hnone j (by omega) h2⟩

theorem first_eq_some : first M n i = some (k, b) ↔ i ≤ k ∧ k ≤ n ∧ M k = some b ∧ ∀ j, i ≤ j → j < k → M j = none := by
  rw [first, upTo_eq_some]
  constructor
  · rintro ⟨h1, h2, h⟩
    exact ⟨h1, by omega, h⟩
  · rintro ⟨h1, h2, h⟩
    exact ⟨h1, by omega, h⟩

theorem first_eq_none : first M n i = none ↔ ∀ j, i ≤ j → j ≤ n → M j = none := by
  constructor
  · intro h j hij
    induction j using Nat.strong_induction_on with
    | _ j ih =>
    intro hjn
    by_contra hne
    obtain ⟨b, hb⟩ := Option.ne_none_iff_exists'.mp hne
    have hsome : first M n i = some (j, b) := first_eq_some.mpr ⟨hij, hjn, hb, fun j' h1 h2 => ih j' h2 h1 (by omega)⟩
    rw [h] at hsome
    cases hsome
  · intro h
    cases hf : first M n i with
    | none => rfl
    | some r =>
      obtain ⟨h1, h2, h3, -⟩ := first_eq_some.mp (show first M n i = some (r.1, r.2) from hf)
      rw [h r.1 h1 h2] at h3
      cases h3

theorem first_skip (hle : i ≤ k) (h : ∀ j, i ≤ j → j < k → M j = none) : first M n i = first M n k := by
  refine Option.ext fun r => ?_
  obtain ⟨j, b⟩ := r
  rw [first_eq_some, first_eq_some]
  constructor
  · rintro ⟨h1, h2, h3, h4⟩
    have hkj : k ≤ j := by
      by_contra hlt
      rw [h j h1 (by omega)] at h3
      cases h3
    exact ⟨hkj, h2, h3, fun j' h5 h6 => h4 j' (by omega) h6⟩
  · rintro ⟨h1, h2, h3, h4⟩
    refine ⟨by omega, h2, h3, fun j' h5 h6 => ?_⟩
    by_cases hj : j' < k
    · exact h j' h5 hj
    · exact h4 j' (by omega) h6

theorem first_congr {M' : Nat → Option β} (h : ∀ j, i ≤ j → j ≤ n → M j = M' j) : first M n i = first M' n i := by
  refine Option.ext fun r => ?_
  obtain ⟨k, b⟩ := r
  rw [first_eq_some, first_eq_some]
  refine and_congr_right fun hik => and_congr_right fun hkn => ?_
  rw [h k hik hkn]
  refine and_congr_right fun _ => forall_congr' fun j => forall_congr' fun hij => forall_congr' fun hjk => ?_
  rw [h j hij (by omega)]

/-- What a search finds that goes on where the last one ends, or one further where it is empty. -/
def occurrences (M : Nat → Option β) (last : β → Nat) (n i : Nat) : List (Nat × β) :=
  match _h : first M n i with
  | none => []
  | some (k, b) => (k, b) :: occurrences M last n (max (last b) (k + 1))
termination_by n + 1 - i
decreasing_by
  obtain ⟨h1, h2, -⟩ := first_eq_some.mp _h
  omega

theorem occurrences_none (h : ∀ j, i ≤ j → j ≤ n → M j = none) : occurrences M last n i = [] := by
  rw [occurrences]
  split
  · rfl
  · rename_i hf
    rw [first_eq_none.mpr h] at hf
    cases hf

theorem occurrences_first (h : first M n i = some (k, b)) : occurrences M last n i = (k, b) :: occurrences M last n (max (last b) (k + 1)) := by
  rw [occurrences]
  split
  · rename_i hf
    rw [h] at hf
    cases hf
  · rename_i hf
    rw [h] at hf
    cases hf
    rfl

theorem occurrences_skip (hle : i ≤ k) (h : ∀ j, i ≤ j → j < k → M j = none) : occurrences M last n i = occurrences M last n k := by
  cases hf : first M n k with
  | none =>
    rw [occurrences_none (first_eq_none.mp hf), occurrences_none (first_eq_none.mp ((first_skip hle h).trans hf))]
  | some r =>
    have hf' : first M n i = some (r.1, r.2) := (first_skip hle h).trans hf
    rw [occurrences_first hf', occurrences_first (show first M n k = some (r.1, r.2) from hf)]

theorem occurrences_found (hik : i ≤ k) (h : ∀ j, i ≤ j → j < k → M j = none) (hkn : k ≤ n) (hk : M k = some b) (hlast : k < last b) :
    occurrences M last n i = (k, b) :: occurrences M last n (last b) := by
  rw [occurrences_first (first_eq_some.mpr ⟨hik, hkn, hk, h⟩), Nat.max_eq_left (by omega)]

/-- `t.slice(a, b)` -/
def slice (t : List α) (a b : Nat) : List α := (t.drop a).take (b - a)

/-- The text from `pos`, with what `sub` makes of each occurrence in its place. -/
def splice (sub : Nat → β → List α) (last : β → Nat) (t : List α) (pos : Nat) : List (Nat × β) → List α
  | [] => t.drop pos
  | (k, b) :: rest => slice t pos k ++ sub k b ++ splice sub last t (last b) rest

@[simp] theorem length_slice {a c : Nat} (hac : a ≤ c) (hc : c ≤ t.length) : (slice t a c).length = c - a := by
  rw [slice, List.length_take, List.length_drop]
  omega

theorem getElem?_slice {a c : Nat} (l : Nat) : (slice t a c)[l]? = if a + l < c then t[a + l]? else none := by
  rw [slice, List.getElem?_take]
  by_cases hl : l < c - a
  · rw [if_pos hl, if_pos (by omega), List.getElem?_drop]
  · rw [if_neg hl, if_neg (by omega)]

theorem splice_none {sub : Nat → β → List α} {pos : Nat} (h : ∀ j, i ≤ j → j ≤ n → M j = none) :
    splice sub last t pos (occurrences M last n i) = t.drop pos := by
  rw [occurrences_none h]
  rfl

theorem splice_found {sub : Nat → β → List α} {pos : Nat} (hik : i ≤ k) (h : ∀ j, i ≤ j → j < k → M j = none) (hkn : k ≤ n)
    (hk : M k = some b) (hlast : k < last b) :
    splice sub last t pos (occurrences M last n i) =
      slice t pos k ++ sub k b ++ splice sub last t (last b) (occurrences M last n (last b)) := by
  rw [occurrences_found hik h hkn hk hlast]
  rfl

variable {P : Nat → Bool}

def find (P : Nat → Bool) (n i : Nat) : Option Nat := (first (fun k => if P k then some () else none) n i).map (·.1)

theorem first_ite {g : Nat → β} : first (fun k => if P k then some (g k) else none) n i = (find P n i).map fun k => (k, g k) := by
  have hone {f : Nat → β} (j : Nat) : (if P j then some (f j) else none) = none ↔ P j = false := by
    cases P j <;> simp
  have hunit (j : Nat) : (if P j then some () else none) = none ↔ P j = false := by
    cases P j <;> simp
  rw [find, Option.map_map]
  cases hf : first (fun k => if P k then some () else none) n i with
  | none =>
    exact first_eq_none.mpr fun j h1 h2 => (hone j).mpr ((hunit j).mp (first_eq_none.mp hf j h1 h2))
  | some r =>
    obtain ⟨h1, h2, h3, h4⟩ := first_eq_some.mp (show _ = some (r.1, r.2) from hf)
    refine first_eq_some.mpr ⟨h1, h2, ?_, fun j h5 h6 => (hone j).mpr ((hunit j).mp (h4 j h5 h6))⟩
    split at h3
    · rename_i hP
      exact if_pos hP
    · cases h3

theorem find_eq_some : find P n i = some k ↔ i ≤ k ∧ k ≤ n ∧ P k = true ∧ ∀ j, i ≤ j → j < k → P j = false := by
  rw [find, Option.map_eq_some_iff]
  constructor
  · rintro ⟨⟨k', u⟩, hf, rfl⟩
    obtain ⟨h1, h2, h3, h4⟩ := first_eq_some.mp hf
    refine ⟨h1, h2, ?_, fun j h5 h6 => ?_⟩
    · by_contra hne
      rw [if_neg hne] at h3
      cases h3
    · by_contra hne
      have hnone := h4 j h5 h6
      rw [if_pos (Bool.not_eq_false _ ▸ hne)] at hnone
      cases hnone
  · rintro ⟨h1, h2, h3, h4⟩
    exact ⟨(k, ()), first_eq_some.mpr ⟨h1, h2, if_pos h3, fun j h5 h6 => if_neg (by rw [h4 j h5 h6]; exact Bool.false_ne_true)⟩, rfl⟩

theorem find_eq_none : find P n i = none ↔ ∀ j, i ≤ j → j ≤ n → P j = false := by
  rw [find, Option.map_eq_none_iff, first_eq_none]
  refine forall_congr' fun j => forall_congr' fun _ => forall_congr' fun _ => ?_
  cases P j <;> simp

/-- From a later place on, the first one is the same as long as it is not passed. -/
theorem find_later (h : find P n i = some k) (hij : i ≤ j) (hjk : j ≤ k) : find P n j = some k := by
  obtain ⟨h1, h2, h3, h4⟩ := find_eq_some.mp h
  exact find_eq_some.mpr ⟨hjk, h2, h3, fun j' h5 h6 => h4 j' (by omega) h6⟩

theorem find_skip (hij : i ≤ j) (h : ∀ l, i ≤ l → l < j → P l = false) : find P n i = find P n j := by
  rw [find, find, first_skip hij fun l h1 h2 => if_neg (by rw [h l h1 h2]; exact Bool.false_ne_true)]

theorem find_none_later (h : find P n i = none) (hij : i ≤ j) : find P n j = none :=
  find_eq_none.mpr fun j' h1 => find_eq_none.mp h j' (by omega)

theorem find_mono {k' : Nat} (h : find P n i = some k) (hij : i ≤ j) (h' : find P n j = some k') : k ≤ k' := by
  obtain ⟨h1, -, h2, -⟩ := find_eq_some.mp h'
  by_contra hlt
  rw [(find_eq_some.mp h).2.2.2 k' (by omega) (by omega)] at h2
  cases h2

/-- `t.indexOf(c, i)` -/
def indexOf [DecidableEq α] (t : List α) (c : α) (i : Nat) : Option Nat := find (fun k => decide (t[k]? = some c)) t.length i

variable [DecidableEq α] {c : α}

theorem indexOf_eq_some : indexOf t c i = some k ↔ i ≤ k ∧ t[k]? = some c ∧ ∀ j, i ≤ j → j < k → t[j]? ≠ some c := by
  rw [indexOf, find_eq_some]
  simp only [decide_eq_true_iff, decide_eq_false_iff_not]
  constructor
  · rintro ⟨h1, -, h⟩
    exact ⟨h1, h⟩
  · rintro ⟨h1, h2, h3⟩
    exact ⟨h1, (List.getElem?_eq_some_iff.mp h2).1.le, h2, h3⟩

theorem indexOf_eq_none : indexOf t c i = none ↔ ∀ j, i ≤ j → t[j]? ≠ some c := by
  rw [indexOf, find_eq_none]
  simp only [decide_eq_false_iff_not]
  refine forall_congr' fun j => forall_congr' fun _ => ⟨fun h hj => ?_, fun h _ => h⟩
  exact h (List.getElem?_eq_some_iff.mp hj).1.le hj

theorem indexOf_lt (h : indexOf t c i = some k) : k < t.length := (List.getElem?_eq_some_iff.mp (indexOf_eq_some.mp h).2.1).1

end Search
