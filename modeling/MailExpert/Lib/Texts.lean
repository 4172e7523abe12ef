import Mathlib

/-!
# Texts in parts

Texts are lists of characters. `splitPair` is the split at a separator that is one character twice; on parts that are joined by that
character it finds only the separators between the joins (`splitPair_intercalate`). What is put before a text goes on with its first part, what
is put after it with its last (`splitOn_append_of_not_mem`, `splitOn_last`).
-/

universe u

namespace Texts

variable {α : Type u} [DecidableEq α] {a : α} {x l l' : List α} {parts parts' : List (List α)}

/-- The first part goes on with what comes before. -/
def prepend (x : List α) : List (List α) → List (List α)
  | [] => [x]
  | part :: parts => (x ++ part) :: parts

/-- `text.split(aa)` -/
def splitPair (a : α) : List α → List (List α)
  | [] => [[]]
  | [c] => [[c]]
  | c :: d :: l => if c = a ∧ d = a then [] :: splitPair a l else prepend [c] (splitPair a (d :: l))

attribute [local simp] splitPair

omit [DecidableEq α] in
theorem prepend_prepend {y : List α} {L : List (List α)} : prepend x (prepend y L) = prepend (x ++ y) L := by
  cases L <;> simp [prepend]

theorem splitPair_ne_nil : splitPair a l ≠ [] := by
  fun_induction splitPair a l with
  | case1 => simp
  | case2 => simp
  | case3 => simp
  | case4 c d l _ _ => cases splitPair a (d :: l) <;> simp [prepend]

@[simp] theorem prepend_nil_splitPair : prepend [] (splitPair a l) = splitPair a l := by
  cases h : splitPair a l with
  | nil => exact absurd h splitPair_ne_nil
  | cons part parts => rfl

@[simp] theorem splitPair_pair : splitPair a (a :: a :: l) = [] :: splitPair a l := by simp

/-- A character that does not begin a separator. -/
theorem splitPair_cons {c : α} (h : c = a → l.head? ≠ some a) : splitPair a (c :: l) = prepend [c] (splitPair a l) := by
  cases l with
  | nil => rfl
  | cons d l =>
    rw [splitPair, if_neg]
    rintro ⟨hc, rfl⟩
    exact h hc rfl

theorem splitPair_append (hx : a ∉ x) : splitPair a (x ++ l) = prepend x (splitPair a l) := by
  induction x with
  | nil => simp
  | cons c x ih =>
    rw [List.mem_cons, not_or] at hx
    rw [List.cons_append, splitPair_cons fun hc => absurd hc.symm hx.1, ih hx.2, prepend_prepend]
    rfl

omit [DecidableEq α] in
theorem head?_intercalate_ne (hparts : ∀ part ∈ parts, part ≠ [] ∧ a ∉ part) (hne : parts ≠ []) :
    ([a].intercalate parts ++ l).head? ≠ some a := by
  obtain ⟨part, parts, rfl⟩ := List.exists_cons_of_ne_nil hne
  obtain ⟨hpart, hmem⟩ := hparts part List.mem_cons_self
  obtain ⟨c, part, rfl⟩ := List.exists_cons_of_ne_nil hpart
  rw [List.mem_cons, not_or] at hmem
  cases parts <;> simpa using Ne.symm hmem.1

theorem splitPair_intercalate_append (hparts : ∀ part ∈ parts, part ≠ [] ∧ a ∉ part) :
    splitPair a ([a].intercalate parts ++ l) = prepend ([a].intercalate parts) (splitPair a l) := by
  induction parts with
  | nil => simp
  | cons part parts ih =>
    have hmem := (hparts part List.mem_cons_self).2
    have hrest : ∀ part ∈ parts, part ≠ [] ∧ a ∉ part := fun p hp => hparts p (List.mem_cons_of_mem _ hp)
    cases parts with
    | nil => simpa using splitPair_append hmem
    | cons part' parts =>
      rw [List.intercalate_cons_cons, List.append_assoc, List.append_assoc, splitPair_append hmem, List.singleton_append,
        splitPair_cons fun _ => head?_intercalate_ne hrest (by simp), ih hrest, prepend_prepend, prepend_prepend]

/-- Parts with a separator between them, or none. -/
theorem splitPair_intercalate (hparts : ∀ part ∈ parts, part ≠ [] ∧ a ∉ part) :
    splitPair a ([a].intercalate parts) = [[a].intercalate parts] := by
  simpa [prepend] using splitPair_intercalate_append (l := []) hparts

theorem splitPair_intercalate_pair (hparts : ∀ part ∈ parts, part ≠ [] ∧ a ∉ part) (hparts' : ∀ part ∈ parts', part ≠ [] ∧ a ∉ part) :
    splitPair a ([a].intercalate parts ++ a :: a :: [a].intercalate parts') = [[a].intercalate parts, [a].intercalate parts'] := by
  rw [splitPair_intercalate_append hparts, splitPair_pair, splitPair_intercalate hparts']
  simp [prepend]

omit [DecidableEq α] in
theorem intercalate_append_singleton (hne : parts ≠ []) : [a].intercalate (parts ++ [x]) = [a].intercalate parts ++ a :: x := by
  induction parts with
  | nil => exact absurd rfl hne
  | cons part parts ih =>
    cases parts with
    | nil => simp
    | cons part' parts =>
      rw [List.cons_append, List.cons_append, List.intercalate_cons_cons, ← List.cons_append, ih (by simp), List.intercalate_cons_cons]
      simp

/-- What stands before and after the last `a`. -/
theorem rdropWhile_append (hx : a ∉ x) : (l ++ a :: x).rdropWhile (· ≠ a) = l ++ [a] := by
  have hall : x.reverse.dropWhile (· ≠ a) = [] := List.dropWhile_eq_nil_iff.mpr fun c hc => by
    simpa using fun hca : c = a => hx (hca ▸ List.mem_reverse.mp hc)
  rw [List.rdropWhile, List.reverse_append, List.reverse_cons, List.append_assoc, List.dropWhile_append, hall]
  simp

theorem rtakeWhile_append (hx : a ∉ x) : (l ++ a :: x).rtakeWhile (· ≠ a) = x := by
  have hall : ∀ c ∈ x.reverse, decide (c ≠ a) = true := fun c hc => by
    simpa using fun hca : c = a => hx (hca ▸ List.mem_reverse.mp hc)
  rw [List.rtakeWhile, List.reverse_append, List.reverse_cons, List.append_assoc, List.takeWhile_append_of_pos hall]
  simp

/-- The text without the places where `a` is followed by `x`, one after another, after `skip` more characters. -/
def removeAll (a : α) (x : List α) : Nat → List α → List α
  | _, [] => []
  | skip + 1, _ :: l => removeAll a x skip l
  | 0, c :: l => if c = a ∧ x.isPrefixOf l then removeAll a x x.length l else c :: removeAll a x 0 l

attribute [local simp] removeAll

theorem removeAll_skip {n : Nat} : removeAll a x n l = removeAll a x 0 (l.drop n) := by
  induction l generalizing n with
  | nil => simp
  | cons c l ih =>
    cases n with
    | zero => rfl
    | succ n => rw [removeAll, ih, List.drop_succ_cons]

theorem removeAll_match : removeAll a x 0 (a :: (x ++ l)) = removeAll a x 0 l := by
  rw [removeAll, if_pos ⟨rfl, by simp⟩, removeAll_skip, List.drop_left]

theorem removeAll_ne {c : α} (h : c ≠ a) : removeAll a x 0 (c :: l) = c :: removeAll a x 0 l := by
  rw [removeAll, if_neg fun hc => h hc.1]

theorem removeAll_cons {c : α} (h : c = a → ¬x <+: l) : removeAll a x 0 (c :: l) = c :: removeAll a x 0 l := by
  rw [removeAll, if_neg]
  rintro ⟨hc, hx⟩
  exact h hc (List.isPrefixOf_iff_prefix.mp hx)

section Split
omit [DecidableEq α]
variable [BEq α] [LawfulBEq α]

theorem not_mem_of_mem_splitOn (h : x ∈ l.splitOn a) : a ∉ x := by
  induction l generalizing x with
  | nil =>
    rw [List.splitOn_nil, List.mem_singleton] at h
    exact h ▸ List.not_mem_nil
  | cons c l ih =>
    rw [List.splitOn_cons_eq_if_modifyHead] at h
    split at h
    · rcases List.mem_cons.mp h with rfl | h
      · exact List.not_mem_nil
      · exact ih h
    · rename_i hc
      cases hs : l.splitOn a with
      | nil => exact absurd hs (List.splitOn_ne_nil a l)
      | cons part parts =>
        rw [hs] at h ih
        rcases List.mem_cons.mp h with rfl | h
        · rw [List.mem_cons, not_or]
          exact ⟨fun hac => hc (by simp [hac]), ih List.mem_cons_self⟩
        · exact ih (List.mem_cons_of_mem _ h)

omit [LawfulBEq α] in
theorem mem_of_mem_splitOn {c : α} (h : x ∈ l.splitOn a) (hc : c ∈ x) : c ∈ l := by
  induction l generalizing x with
  | nil =>
    rw [List.splitOn_nil, List.mem_singleton] at h
    exact absurd (h ▸ hc) List.not_mem_nil
  | cons d l ih =>
    rw [List.splitOn_cons_eq_if_modifyHead] at h
    split at h
    · rcases List.mem_cons.mp h with rfl | h
      · cases hc
      · exact List.mem_cons_of_mem _ (ih h hc)
    · cases hs : l.splitOn a with
      | nil => exact absurd hs (List.splitOn_ne_nil a l)
      | cons part parts =>
        rw [hs] at h ih
        rcases List.mem_cons.mp h with rfl | h
        · rcases List.mem_cons.mp hc with rfl | hc
          · exact List.mem_cons_self
          · exact List.mem_cons_of_mem _ (ih List.mem_cons_self hc)
        · exact List.mem_cons_of_mem _ (ih (List.mem_cons_of_mem _ h) hc)

/-- What comes before the first part goes on with it. -/
theorem splitOn_append_of_not_mem (hx : a ∉ x) : (x ++ l).splitOn a = (l.splitOn a).modifyHead (x ++ ·) := by
  induction x with
  | nil => cases h : l.splitOn a <;> simp [h]
  | cons c x ih =>
    rw [List.mem_cons, not_or] at hx
    rw [List.cons_append, List.splitOn_cons_eq_if_modifyHead, if_neg (by simpa using Ne.symm hx.1), ih hx.2]
    cases l.splitOn a <;> rfl

/-- The last part goes on with what comes after it. -/
theorem splitOn_last (a : α) (l : List α) :
    ∃ parts last, l.splitOn a = parts ++ [last] ∧ ∀ s, (l ++ s).splitOn a = parts ++ (last ++ s).splitOn a := by
  induction l with
  | nil => exact ⟨[], [], List.splitOn_nil a, fun s => rfl⟩
  | cons c l ih =>
    obtain ⟨parts, last, hl, happend⟩ := ih
    have hlast : a ∉ last := not_mem_of_mem_splitOn (l := l) (hl ▸ List.mem_append_right _ List.mem_cons_self)
    by_cases hc : c = a
    · subst hc
      refine ⟨[] :: parts, last, ?_, fun s => ?_⟩
      · rw [List.splitOn_cons_eq_if_modifyHead, if_pos BEq.rfl, hl]
        rfl
      · rw [List.cons_append, List.splitOn_cons_eq_if_modifyHead, if_pos BEq.rfl, happend]
        rfl
    · have hcons (s : List α) : (c :: s).splitOn a = (s.splitOn a).modifyHead (c :: ·) := by
        rw [List.splitOn_cons_eq_if_modifyHead, if_neg (by simpa using hc)]
      cases parts with
      | nil =>
        refine ⟨[], c :: last, ?_, fun s => ?_⟩
        · rw [hcons, hl]
          rfl
        · rw [List.cons_append, hcons, happend, List.nil_append]
          exact (hcons _).symm
      | cons part parts =>
        refine ⟨(c :: part) :: parts, last, ?_, fun s => ?_⟩
        · rw [hcons, hl]
          rfl
        · rw [List.cons_append, hcons, happend]
          rfl

end Split

end Texts
