import Mathlib

/-!
# Folds that depend on what they saw

A fold whose value is described by the set of the elements it went over (`Folds.Describes`) ends alike for every order and with any
repetitions, and an element it saw changes nothing any more.
-/

universe u v

namespace Folds

variable {α : Type u} {β : Type v}

/-- `P S b` describes the value `b` of the fold after the elements of `S`, for the sets that are good. -/
structure Describes (f : β → α → β) (b₀ : β) (Good : Set α → Prop) (P : Set α → β → Prop) : Prop where
  mono : ∀ {S T}, Good S → T ⊆ S → Good T
  init : P ∅ b₀
  step : ∀ {S a b}, Good (insert a S) → P S b → P (insert a S) (f b a)
  unique : ∀ {S b b'}, Good S → P S b → P S b' → b = b'

variable {f : β → α → β} {b₀ : β} {Good : Set α → Prop} {P : Set α → β → Prop} {l l' : List α} {a : α}

theorem insert_mem : (insert a { x | x ∈ l } : Set α) = { x | x ∈ l ++ [a] } := by
  ext x
  simp [or_comm]

namespace Describes

theorem foldl (h : Describes f b₀ Good P) (hgood : Good { x | x ∈ l }) : P { x | x ∈ l } (l.foldl f b₀) := by
  induction l using List.reverseRecOn with
  | nil => simpa using h.init
  | append_singleton l a ih =>
    rw [← insert_mem] at hgood ⊢
    rw [List.foldl_append]
    exact h.step hgood (ih (h.mono hgood (Set.subset_insert _ _)))

theorem foldl_eq (h : Describes f b₀ Good P) (hgood : Good { x | x ∈ l }) (hsame : ∀ x, x ∈ l ↔ x ∈ l') :
    l.foldl f b₀ = l'.foldl f b₀ := by
  have hset : { x | x ∈ l } = { x | x ∈ l' } := Set.ext hsame
  have hl' : P { x | x ∈ l' } (l'.foldl f b₀) := h.foldl (hset ▸ hgood)
  exact h.unique hgood (h.foldl hgood) (hset ▸ hl')

/-- An element that the fold saw leaves its value. -/
theorem absorbs (h : Describes f b₀ Good P) (hgood : Good { x | x ∈ l }) (ha : a ∈ l) : f (l.foldl f b₀) a = l.foldl f b₀ := by
  have hagain : (l ++ [a]).foldl f b₀ = l.foldl f b₀ := by
    refine (h.foldl_eq hgood fun x => ?_).symm
    rw [List.mem_append, List.mem_singleton]
    exact ⟨.inl, fun hx => hx.elim id fun heq => heq ▸ ha⟩
  rwa [List.foldl_append] at hagain

end Describes

end Folds
