import Mathlib

/-!
# Blocks between two marks

A list in which a mark `b` opens a block and a mark `e` closes it. `outside` is what is left when the blocks are cut out, where the marks
pair up (`isSome_outside`).
-/

universe u

namespace Blocks

variable {α : Type u} [DecidableEq α] {b e : α} {l l' r x y : List α} {inside : Bool}

/-- The list without its blocks, from outside or from inside one. -/
def outside (b e : α) : Bool → List α → Option (List α)
  | false, [] => some []
  | true, [] => none
  | false, a :: l => if a = b then outside b e true l else if a = e then none else (outside b e false l).map (a :: ·)
  | true, a :: l => if a = e then outside b e false l else if a = b then none else outside b e true l

attribute [local simp] outside

/-- The marks are one that opens, then one that closes, and so on. -/
def Alternate (b e : α) (l : List α) : Prop := ∃ n, l.filter (fun a => a = b ∨ a = e) = (List.replicate n [b, e]).flatten

theorem isSome_outside_aux (hne : b ≠ e) :
    ((outside b e false l).isSome ↔ Alternate b e l) ∧
      ((outside b e true l).isSome ↔ ∃ n, l.filter (fun a => a = b ∨ a = e) = e :: (List.replicate n [b, e]).flatten) := by
  induction l with
  | nil => exact ⟨⟨fun _ => ⟨0, rfl⟩, fun _ => rfl⟩, ⟨fun h => (by cases h), fun ⟨n, h⟩ => (by cases h)⟩⟩
  | cons a l ih =>
    have hzero {m : List α} {c : α} : (∃ n, b :: m = (List.replicate n [b, e]).flatten) ↔ ∃ n, m = e :: (List.replicate n [b, e]).flatten := by
      refine ⟨fun ⟨n, h⟩ => ?_, fun ⟨n, h⟩ => ⟨n + 1, by simp [h, List.replicate_succ]⟩⟩
      cases n with
      | zero => cases h
      | succ n => exact ⟨n, by simpa [List.replicate_succ] using h⟩
    by_cases hb : a = b
    · subst hb
      refine ⟨?_, ?_⟩
      · simpa [outside, Alternate, hzero (c := a)] using ih.2
      · simp [outside, hne]
    · by_cases he : a = e
      · subst he
        refine ⟨?_, ?_⟩
        · simp only [outside, if_neg hb, ↓reduceIte, Option.isSome_none, Bool.false_eq_true, false_iff]
          rintro ⟨n, h⟩
          cases n with
          | zero => simp at h
          | succ n => simp [List.replicate_succ, hb] at h
        · simpa [outside, Alternate] using ih.1
      · refine ⟨?_, ?_⟩
        · simpa [outside, Alternate, hb, he] using ih.1
        · simpa [outside, hb, he] using ih.2

/-- The blocks can be cut out exactly when the marks pair up in order. -/
theorem isSome_outside (hne : b ≠ e) : (outside b e false l).isSome ↔ Alternate b e l := (isSome_outside_aux hne).1

theorem outside_append (h : outside b e inside l = some r) : outside b e inside (l ++ l') = (outside b e false l').map (r ++ ·) := by
  induction l generalizing inside r with
  | nil =>
    cases inside with
    | false =>
      cases h
      simp
    | true => cases h
  | cons a l ih =>
    cases inside with
    | true =>
      rw [outside] at h
      rw [List.cons_append, outside]
      split_ifs at h ⊢ with he hb
      · exact ih h
      · exact ih h
    | false =>
      rw [outside] at h
      rw [List.cons_append, outside]
      split_ifs at h ⊢ with hb he
      · exact ih h
      · obtain ⟨r', hr', rfl⟩ := Option.map_eq_some_iff.mp h
        rw [ih hr', Option.map_map]
        rfl

theorem outside_of_not_mem (hb : b ∉ l) (he : e ∉ l) : outside b e false l = some l := by
  induction l with
  | nil => rfl
  | cons a l ih =>
    rw [List.mem_cons, not_or] at hb he
    rw [outside, if_neg (Ne.symm hb.1), if_neg (Ne.symm he.1), ih hb.2 he.2]
    rfl

theorem outside_inside (hb : b ∉ y) (he : e ∉ y) : outside b e true (y ++ e :: l) = outside b e false l := by
  induction y with
  | nil => exact if_pos rfl
  | cons a y ih =>
    rw [List.mem_cons, not_or] at hb he
    rw [List.cons_append, outside, if_neg (Ne.symm he.1), if_neg (Ne.symm hb.1), ih hb.2 he.2]

/-- The first block, and what comes before it. -/
theorem outside_block (hbx : b ∉ x) (hex : e ∉ x) (hby : b ∉ y) (hey : e ∉ y) :
    outside b e false (x ++ b :: (y ++ e :: l)) = (outside b e false l).map (x ++ ·) := by
  rw [outside_append (outside_of_not_mem hbx hex), outside, if_pos rfl, outside_inside hby hey]

theorem outside_inside_none (he : e ∉ l) : outside b e true l = none := by
  induction l with
  | nil => rfl
  | cons a l ih =>
    rw [List.mem_cons, not_or] at he
    rw [outside, if_neg (Ne.symm he.1), ih he.2, ite_self]

theorem outside_nested (he : e ∉ y) (hb : b ∈ y) : outside b e true (y ++ l) = none := by
  induction y with
  | nil => cases hb
  | cons a y ih =>
    rw [List.mem_cons, not_or] at he
    rw [List.cons_append, outside, if_neg (Ne.symm he.1)]
    by_cases hab : a = b
    · exact if_pos hab
    · rw [if_neg hab]
      exact ih he.2 ((List.mem_cons.mp hb).resolve_left (Ne.symm hab))

theorem outside_false_mark (hbx : b ∉ x) (he : e ∈ x) : outside b e false (x ++ l) = none := by
  induction x with
  | nil => cases he
  | cons a x ih =>
    rw [List.mem_cons, not_or] at hbx
    rw [List.cons_append, outside, if_neg (Ne.symm hbx.1)]
    by_cases hae : a = e
    · exact if_pos hae
    · rw [if_neg hae, ih hbx.2 ((List.mem_cons.mp he).resolve_left (Ne.symm hae))]
      rfl

theorem outside_sublist (h : outside b e inside l = some r) : r.Sublist l := by
  induction l generalizing inside r with
  | nil =>
    cases inside with
    | false =>
      cases h
      exact List.Sublist.slnil
    | true => cases h
  | cons a l ih =>
    cases inside with
    | true =>
      rw [outside] at h
      split_ifs at h
      · exact (ih h).cons a
      · exact (ih h).cons a
    | false =>
      rw [outside] at h
      split_ifs at h
      · exact (ih h).cons a
      · obtain ⟨r', hr', rfl⟩ := Option.map_eq_some_iff.mp h
        exact (ih hr').cons_cons a

/-- No mark is left. -/
theorem not_mem_outside (h : outside b e inside l = some r) : b ∉ r ∧ e ∉ r := by
  induction l generalizing inside r with
  | nil =>
    cases inside with
    | false =>
      cases h
      exact ⟨List.not_mem_nil, List.not_mem_nil⟩
    | true => cases h
  | cons a l ih =>
    cases inside with
    | true =>
      rw [outside] at h
      split_ifs at h
      · exact ih h
      · exact ih h
    | false =>
      rw [outside] at h
      split_ifs at h with hb he
      · exact ih h
      · obtain ⟨r', hr', rfl⟩ := Option.map_eq_some_iff.mp h
        exact ⟨fun hmem => (List.mem_cons.mp hmem).elim (hb ·.symm) (ih hr').1, fun hmem => (List.mem_cons.mp hmem).elim (he ·.symm) (ih hr').2⟩

section Search
omit [DecidableEq α]
variable [BEq α] [LawfulBEq α] {start k : Nat}

/-- The list about the first place of an element. -/
theorem idxOf?_eq_some {a : α} (h : l.idxOf? a = some start) :
    l = l.take start ++ l.drop start ∧ l.drop start = a :: l.drop (start + 1) ∧ a ∉ l.take start := by
  obtain ⟨hlt, hget, hbefore⟩ := List.idxOf?_eq_some_iff.mp h
  refine ⟨(List.take_append_drop start l).symm, ?_, fun hmem => ?_⟩
  · rw [← hget, List.getElem_cons_drop]
  · obtain ⟨j, hj, hget⟩ := List.mem_take_iff_getElem.mp hmem
    exact hbefore j (by omega) hget

/-- The list about the first opening mark and the first closing one after it. -/
theorem idxOf?_pair (hne : b ≠ e) (hb : l.idxOf? b = some start) (he : (l.drop start).idxOf? e = some k) :
    l = l.take start ++ b :: ((l.take (start + k)).drop (start + 1) ++ e :: l.drop (start + k + 1)) ∧
      b ∉ l.take start ∧ e ∉ (l.take (start + k)).drop (start + 1) := by
  obtain ⟨hl, hdrop, hx⟩ := idxOf?_eq_some hb
  rw [hdrop, List.idxOf?_cons, if_neg (by simpa using hne)] at he
  obtain ⟨k, hk, rfl⟩ := Option.map_eq_some_iff.mp he
  obtain ⟨hl', hdrop', hy⟩ := idxOf?_eq_some hk
  have hbody : (l.take (start + (k + 1))).drop (start + 1) = (l.drop (start + 1)).take k := by
    rw [List.drop_take, show start + (k + 1) - (start + 1) = k by omega]
  have hrest : e :: (l.drop (start + 1)).drop (k + 1) = e :: l.drop (start + (k + 1) + 1) := by
    rw [List.drop_drop, show start + 1 + (k + 1) = start + (k + 1) + 1 by omega]
  rw [hbody]
  refine ⟨hl.trans (congrArg _ (hdrop.trans (congrArg _ ?_))), hx, hy⟩
  exact hl'.trans (congrArg _ (hdrop'.trans hrest))

end Search

end Blocks
