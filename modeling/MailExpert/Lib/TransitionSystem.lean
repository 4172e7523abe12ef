import Mathlib

/-!
# Transition systems with guarded runs

A system is a predicate of initial states and a step function that a label drives; a label the
state does not admit gives `none`. A *guarded run* (`TransitionSystem.Run`) takes only steps
that meet a guard on the state before the step and its label, so a property of every run and a
property of the runs that avoid a branch are proved by the same induction
(`TransitionSystem.Invariant.run`).

`TransitionSystem.exec` replays a list of labels under a guard, which turns a concrete trace into a
reachability proof (`TransitionSystem.reaches_of_exec`).
-/

universe u v

/-- States `σ`, labels `ℓ`: where a run starts and what one label does. -/
structure TransitionSystem (σ : Type u) (ℓ : Type v) where
  init : σ → Prop
  step : σ → ℓ → Option σ

namespace TransitionSystem

variable {σ : Type u} {ℓ : Type v} {M : TransitionSystem σ ℓ} {G H : σ → ℓ → Prop}

/-- `s'` is reached from `s` by steps that all meet the guard `G`. -/
inductive Run (M : TransitionSystem σ ℓ) (G : σ → ℓ → Prop) (s : σ) : σ → Prop
  | refl : Run M G s s
  | tail : Run M G s t → G t l → M.step t l = some t' → Run M G s t'

/-- The guard that every step meets. -/
def anyStep (_ : σ) (_ : ℓ) : Prop := True

instance (s : σ) (l : ℓ) : Decidable (anyStep s l) := .isTrue trivial

/-- `s` is reached from an initial state by steps that all meet the guard `G`. -/
def ReachesUnder (M : TransitionSystem σ ℓ) (G : σ → ℓ → Prop) (s : σ) : Prop :=
  ∃ s₀, M.init s₀ ∧ M.Run G s₀ s

/-- `s` is reached from an initial state. -/
def Reachable (M : TransitionSystem σ ℓ) (s : σ) : Prop := M.ReachesUnder anyStep s

theorem Run.trans (h₁ : M.Run G s t) (h₂ : M.Run G t t') : M.Run G s t' := by
  induction h₂ with
  | refl => exact h₁
  | tail _ hg hs ih => exact .tail ih hg hs

theorem Run.mono (h : M.Run G s t) (hGH : ∀ s l, G s l → H s l) : M.Run H s t := by
  induction h with
  | refl => exact .refl
  | tail _ hg hs ih => exact .tail ih (hGH _ _ hg) hs

theorem Run.anyStep (h : M.Run G s t) : M.Run TransitionSystem.anyStep s t :=
  h.mono fun _ _ _ => trivial

theorem ReachesUnder.init (h : M.init s) : M.ReachesUnder G s := ⟨s, h, .refl⟩

theorem ReachesUnder.tail (h : M.ReachesUnder G s) (hg : G s l) (hs : M.step s l = some s') :
    M.ReachesUnder G s' := by
  obtain ⟨s₀, hi, hr⟩ := h
  exact ⟨s₀, hi, hr.tail hg hs⟩

theorem ReachesUnder.run (h : M.ReachesUnder G s) (hr : M.Run G s t) : M.ReachesUnder G t := by
  obtain ⟨s₀, hi, h⟩ := h
  exact ⟨s₀, hi, h.trans hr⟩

theorem ReachesUnder.reachable (h : M.ReachesUnder G s) : M.Reachable s := by
  obtain ⟨s₀, hi, hr⟩ := h
  exact ⟨s₀, hi, hr.anyStep⟩

/-- `I` holds where runs start and every step that meets `G` keeps it. -/
structure Invariant (M : TransitionSystem σ ℓ) (G : σ → ℓ → Prop) (I : σ → Prop) : Prop where
  init : M.init s → I s
  step : I s → G s l → M.step s l = some s' → I s'

namespace Invariant

variable {I J : σ → Prop}

/-- What one step keeps, a run keeps. -/
theorem run (h : M.Invariant G I) (hs : I s) (hr : M.Run G s t) : I t := by
  induction hr with
  | refl => exact hs
  | tail _ hg hstep ih => exact h.step ih hg hstep

theorem reachesUnder (h : M.Invariant G I) (hr : M.ReachesUnder G s) : I s := by
  obtain ⟨s₀, hi, hr⟩ := hr
  exact h.run (h.init hi) hr

theorem reachable (h : M.Invariant anyStep I) (hr : M.Reachable s) : I s := h.reachesUnder hr

/-- An invariant of every run may be assumed while proving the invariant of the guarded ones. -/
theorem strengthen (hJ : M.Invariant anyStep J) (init : ∀ s, M.init s → I s)
    (step : ∀ s l s', J s → I s → G s l → M.step s l = some s' → I s') :
    M.Invariant G fun s => J s ∧ I s where
  init hi := ⟨hJ.init hi, init _ hi⟩
  step hs hg hstep := ⟨hJ.step hs.1 trivial hstep, step _ _ _ hs.1 hs.2 hg hstep⟩

/-- Where a step that does not meet the guard ends `P`, the runs that keep `P` are the guarded ones. -/
theorem reachesUnder_iff {P : σ → Prop} (h : M.Invariant G I) (hP : ∀ s, I s → P s)
    (hends : ∀ s l s', I s → ¬G s l → M.step s l = some s' → ¬P s') :
    M.ReachesUnder (fun s l => ∀ s', M.step s l = some s' → P s') s ↔ M.ReachesUnder G s := by
  constructor
  · rintro ⟨s₀, hi, hr⟩
    refine ⟨s₀, hi, ?_⟩
    induction hr with
    | refl => exact .refl
    | tail _ hk hs ih =>
      have hI := h.run (h.init hi) ih
      exact ih.tail (not_not.mp fun hg => hends _ _ _ hI hg hs (hk _ hs)) hs
  · rintro ⟨s₀, hi, hr⟩
    refine ⟨s₀, hi, ?_⟩
    induction hr with
    | refl => exact .refl
    | tail hr hg hs ih =>
      have hI := h.run (h.init hi) hr
      exact ih.tail (fun s' hs' => hP s' (h.step hI hg hs')) hs

end Invariant

/-- A property of states that no step meeting `G` ends. -/
def Stable (M : TransitionSystem σ ℓ) (G : σ → ℓ → Prop) (P : σ → Prop) : Prop :=
  ∀ s l s', P s → G s l → M.step s l = some s' → P s'

theorem Stable.run {P : σ → Prop} (h : M.Stable G P) (hs : P s) (hr : M.Run G s t) : P t := by
  induction hr with
  | refl => exact hs
  | tail _ hg hstep ih => exact h _ _ _ ih hg hstep

section Replay

variable [∀ s l, Decidable (G s l)]

/-- The state after the labels of `ls`, in order, when each step meets `G`. -/
def exec (M : TransitionSystem σ ℓ) (G : σ → ℓ → Prop) [∀ s l, Decidable (G s l)] :
    σ → List ℓ → Option σ
  | s, [] => some s
  | s, l :: ls => if G s l then (M.step s l).bind fun s' => M.exec G s' ls else none

theorem exec_append {ls ls' : List ℓ} {s : σ} :
    M.exec G s (ls ++ ls') = (M.exec G s ls).bind fun t => M.exec G t ls' := by
  induction ls generalizing s with
  | nil => rfl
  | cons l ls ih =>
    simp only [List.cons_append, exec]
    split
    · cases M.step s l with
      | none => rfl
      | some t => exact ih
    · rfl

theorem run_of_exec : ∀ {ls : List ℓ} {s t : σ}, M.exec G s ls = some t → M.Run G s t
  | [], s, t, h => by
    simp only [exec, Option.some.injEq] at h
    exact h ▸ .refl
  | l :: ls, s, t, h => by
    simp only [exec, Option.ite_none_right_eq_some, Option.bind_eq_some_iff] at h
    obtain ⟨hg, s', hs, h⟩ := h
    exact (Run.refl.tail hg hs).trans (run_of_exec h)

theorem exec_anyStep_cons {l : ℓ} {ls : List ℓ} {s t : σ}
    (h : M.exec anyStep s (l :: ls) = some t) :
    ∃ s', M.step s l = some s' ∧ M.exec anyStep s' ls = some t := by
  rw [exec, if_pos (show anyStep s l from trivial)] at h
  exact Option.bind_eq_some_iff.mp h

theorem exec_anyStep_append {ls ls' : List ℓ} {s t : σ}
    (h : M.exec anyStep s (ls ++ ls') = some t) :
    ∃ s', M.exec anyStep s ls = some s' ∧ M.exec anyStep s' ls' = some t := by
  rw [exec_append] at h
  exact Option.bind_eq_some_iff.mp h

/-- A trace whose last state passes the test `p` runs to such a state. -/
theorem run_of_exec_any {ls : List ℓ} {p : σ → Bool} (h : (M.exec G s ls).any p = true) :
    ∃ t, M.Run G s t ∧ p t = true := by
  obtain ⟨t, ht, hp⟩ := (Option.any_eq_true p _).mp h
  exact ⟨t, run_of_exec ht, hp⟩

theorem reaches_of_exec {ls : List ℓ} {p : σ → Bool} (hi : M.init s)
    (h : (M.exec G s ls).any p = true) : ∃ t, M.ReachesUnder G t ∧ p t = true := by
  obtain ⟨t, ht, hp⟩ := run_of_exec_any h
  exact ⟨t, ⟨s, hi, ht⟩, hp⟩

end Replay

end TransitionSystem
