import Mathlib

/-!
# The first place where something is found

`find` asks at the start of a text, where that is asked, and behind every separator, and takes the first answer. A text is walked part by part:
a word that holds no separator is asked about once (`find_word`), a separator lets the search go on behind it (`find_sep`), and at a character
that no answer reaches across the search falls into two (`find_append_stop`).
-/

universe u v w

namespace Fields

variable {α : Type u} {β : Type v} {γ : Type w}

/-- The first answer, at the start if `start` holds, or behind a separator. -/
def find (sep : α → Bool) (ask : List α → Option β) : Bool → List α → Option β
  | _, [] => none
  | start, c :: l => (if start then ask (c :: l) else none).or (find sep ask (sep c) l)

variable {sep : α → Bool} {ask : List α → Option β} {start : Bool} {c : α} {x y l : List α}

theorem find_cons : find sep ask start (c :: l) = (if start then ask (c :: l) else none).or (find sep ask (sep c) l) := rfl

/-- Where nothing is asked at the start. -/
theorem find_true (h : ask x = none) : find sep ask true x = find sep ask false x := by
  cases x with
  | nil => rfl
  | cons c x => rw [find_cons, find_cons, h]; rfl

theorem find_sep (hsep : sep c = true) (h : ask (c :: l) = none) : find sep ask start (c :: l) = find sep ask true l := by
  rw [find_cons, h, hsep]
  cases start <;> rfl

theorem find_false_append (hx : ∀ c ∈ x, sep c = false) : find sep ask false (x ++ l) = find sep ask false l := by
  induction x with
  | nil => rfl
  | cons c x ih =>
    rw [List.cons_append, find_cons, hx c List.mem_cons_self, ih fun d hd => hx d (List.mem_cons_of_mem _ hd)]
    rfl

/-- A word is asked about once. -/
theorem find_word (hx : ∀ c ∈ x, sep c = false) (h : ask (x ++ l) = none) : find sep ask start (x ++ l) = find sep ask false l := by
  cases start with
  | false => exact find_false_append hx
  | true => rw [find_true h, find_false_append hx]

theorem find_true_some {b : β} (h : ask (c :: l) = some b) : find sep ask true (c :: l) = some b := by
  rw [find_cons, if_pos rfl, h, Option.some_or]

/-- Where an answer before `c` is the one without what follows, up to `f`. -/
theorem find_append_map (f : β → β) (h : ∀ x, ask (x ++ c :: l) = (ask x).map f) (hnil : ask [] = none) :
    find sep ask start (x ++ c :: l) = ((find sep ask start x).map f).or (find sep ask (sep c) l) := by
  induction x generalizing start with
  | nil =>
    have hc : ask (c :: l) = none := by simpa [hnil] using h []
    rw [List.nil_append, find_cons, hc]
    cases start <;> rfl
  | cons d x ih =>
    rw [List.cons_append, find_cons, find_cons, ih, ← List.cons_append, h]
    cases start <;> cases ask (d :: x) <;> rfl

/-- What no answer reaches across. -/
theorem find_append_stop (h : ∀ x, ask (x ++ c :: l) = ask x) (hnil : ask [] = none) :
    find sep ask start (x ++ c :: l) = (find sep ask start x).or (find sep ask (sep c) l) := by
  rw [find_append_map id (fun x => by rw [h x, Option.map_id, id]) hnil, Option.map_id, id]

/-- A part that gives no answer. -/
theorem find_skip (h : ∀ y, y <:+ x → ask (y ++ c :: l) = none) : find sep ask start (x ++ c :: l) = find sep ask (sep c) l := by
  induction x generalizing start with
  | nil =>
    rw [List.nil_append, find_cons, show ask (c :: l) = none from h [] List.suffix_rfl]
    cases start <;> rfl
  | cons d x ih =>
    rw [List.cons_append, find_cons, ih fun y hy => h y (hy.trans (List.suffix_cons d x)), ← List.cons_append, h _ List.suffix_rfl]
    cases start <;> rfl

theorem takeWhile_append_stop {p : α → Bool} (h : p c = false) : (x ++ c :: l).takeWhile p = x.takeWhile p := by
  induction x with
  | nil => simp [h]
  | cons d x ih => rw [List.cons_append, List.takeWhile_cons, List.takeWhile_cons, ih]

theorem dropWhile_append_stop {p : α → Bool} (h : p c = false) : (x ++ c :: l).dropWhile p = x.dropWhile p ++ c :: l := by
  induction x with
  | nil => simp [h]
  | cons d x ih =>
    rw [List.cons_append, List.dropWhile_cons, List.dropWhile_cons, ih]
    split <;> rfl

/-- A name ends before a character it does not hold. -/
theorem isPrefixOf?_append_stop [BEq α] [LawfulBEq α] {p : List α} (hp : c ∉ p) : p.isPrefixOf? (x ++ c :: l) = (p.isPrefixOf? x).map (· ++ c :: l) := by
  induction p generalizing x with
  | nil => rfl
  | cons d p ih =>
    rw [List.mem_cons, not_or] at hp
    cases x with
    | nil => simp [List.isPrefixOf?, Ne.symm hp.1]
    | cons e x =>
      simp only [List.cons_append, List.isPrefixOf?]
      split
      · exact ih hp.2
      · rfl

theorem isPrefixOf?_append [BEq α] [LawfulBEq α] {p : List α} : p.isPrefixOf? (p ++ l) = some l :=
  List.isPrefixOf?_eq_some_iff_append_eq.mpr rfl

end Fields
