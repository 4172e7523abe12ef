import MailExpert.Lib.Regex

/-!
# Whole words

The words of a text are what stands between the other characters. `\b[p]{n}\b` finds the words of `n` characters that are all of class `p`
(`matches_whole`), so what a text holds of them is what its parts hold.
-/

universe u

namespace Regex

open Search State

variable {α : Type u} {word p : α → Bool} {t x y w : List α} {c : α} {i j n : Nat} {rs : List (Regex α)}

def words (word : α → Bool) (t : List α) : List (List α) := t.splitOnP fun c => !word c

theorem words_append (hc : word c = false) : words word (x ++ c :: y) = words word x ++ words word y :=
  List.splitOnP_append_cons x y (by simp [hc])

theorem words_word (hx : x.all word = true) : words word x = [x] :=
  List.splitOnP_eq_singleton fun c hc => by simp [List.all_eq_true.mp hx c hc]

/-- `\b[p]{n}\b` -/
def whole (word p : α → Bool) (n : Nat) : Regex α := seqs (boundary word :: (List.replicate n (one p) ++ [boundary word]))

theorem moves_replicate : Moves t (seqs (List.replicate n (one p) ++ rs)) i j ↔ All t p i (i + n) ∧ Moves t (seqs rs) (i + n) j := by
  induction n generalizing i with
  | zero => exact ⟨fun h => ⟨fun l hl hl' => by omega, h⟩, fun h => h.2⟩
  | succ n ih =>
    rw [List.replicate_succ, List.cons_append]
    constructor
    · rintro ⟨l, ⟨hp, rfl⟩, h⟩
      obtain ⟨hall, h⟩ := ih.mp h
      rw [Nat.add_right_comm] at hall h
      refine ⟨fun l hl hl' => ?_, h⟩
      rcases hl.eq_or_lt with rfl | hlt
      · exact hp
      · exact hall l hlt hl'
    · rintro ⟨hall, h⟩
      refine ⟨i + 1, ⟨hall i le_rfl (by omega), rfl⟩, ih.mpr ⟨fun l hl hl' => hall l (by omega) (by omega), ?_⟩⟩
      rwa [Nat.add_right_comm]

theorem moves_whole : Moves t (whole word p n) i j ↔
    atBoundary word t i = true ∧ All t p i (i + n) ∧ atBoundary word t (i + n) = true ∧ j = i + n := by
  constructor
  · rintro ⟨l, ⟨hb, rfl⟩, h⟩
    obtain ⟨hall, l', ⟨hb', rfl⟩, rfl⟩ := moves_replicate.mp h
    exact ⟨hb, hall, hb', rfl⟩
  · rintro ⟨hb, hall, hb', rfl⟩
    exact ⟨i, ⟨hb, rfl⟩, moves_replicate.mpr ⟨hall, i + n, ⟨hb', rfl⟩, rfl⟩⟩

theorem plain_whole : (whole word p n).plain = true := by
  have hreps : ∀ n, (seqs (List.replicate n (one p) ++ [boundary word])).plain = true := by
    intro n
    induction n with
    | zero => rfl
    | succ n ih => exact Bool.and_eq_true_iff.mpr ⟨rfl, ih⟩
  exact Bool.and_eq_true_iff.mpr ⟨rfl, hreps n⟩

/-! ## The words of a text that begins with one -/

section

variable {a : List α} (hw : w.all word = true) (hy : ∀ c ∈ y.head?, word c = false)
include hw hy

/-- A match that does not begin behind the word is the word. -/
theorem moves_whole_word (hp : ∀ c, p c = true → word c = true) (hn : 0 < n)
    (h : Moves (a ++ (w ++ y)) (whole word p n) i j) (hi : a.length ≤ i)
    (hi' : i ≤ a.length + w.length) :
    i = a.length ∧ w.length = n ∧ w.all p = true ∧ j = a.length + n := by
  obtain ⟨hb, hall, hb', rfl⟩ := moves_whole.mp h
  have hget {k : Nat} (hk : k < w.length) : (a ++ (w ++ y))[a.length + k]? = some w[k] := by
    rw [List.getElem?_append_right (by omega), Nat.add_sub_cancel_left, List.getElem?_append_left hk, List.getElem?_eq_getElem hk]
  have hword {k : Nat} (hk : a.length ≤ k) (hk' : k < a.length + w.length) : ((a ++ (w ++ y))[k]?).any word = true := by
    obtain ⟨k, rfl⟩ := Nat.exists_eq_add_of_le hk
    rw [hget (by omega)]
    exact List.all_eq_true.mp hw _ (List.getElem_mem _)
  have hend : ((a ++ (w ++ y))[a.length + w.length]?).any word = false := by
    rw [List.getElem?_append_right (by omega), Nat.add_sub_cancel_left, List.getElem?_append_right le_rfl, Nat.sub_self,
      ← List.head?_eq_getElem?]
    cases hhead : y.head? with
    | none => rfl
    | some c => exact hy c hhead
  have hclass {k : Nat} (hk : i ≤ k) (hk' : k < i + n) : ((a ++ (w ++ y))[k]?).any word = true := by
    have hpk := hall k hk hk'
    cases hc : (a ++ (w ++ y))[k]? with
    | none =>
      rw [hc] at hpk
      cases hpk
    | some c =>
      rw [hc] at hpk
      exact hp c hpk
  have hlt : i < a.length + w.length := by
    rcases hi'.lt_or_eq with hlt | rfl
    · exact hlt
    · exact absurd (hclass le_rfl (by omega)) (by rw [hend]; exact Bool.false_ne_true)
  have hstart : i = a.length := by
    rcases hi.eq_or_lt with heq | hlt'
    · exact heq.symm
    · rw [atBoundary, hword (k := i) hi hlt, hword (k := i - 1) (by omega) (by omega), decide_eq_true (show 0 < i by omega)] at hb
      cases hb
  subst hstart
  have hle : n ≤ w.length := by
    by_contra hlt'
    exact absurd (hclass (k := a.length + w.length) (by omega) (by omega)) (by rw [hend]; exact Bool.false_ne_true)
  have hge : w.length ≤ n := by
    by_contra hlt'
    rw [atBoundary, hclass (k := a.length + n - 1) (by omega) (by omega), hword (k := a.length + n) (by omega) (by omega),
      decide_eq_true (show 0 < a.length + n by omega)] at hb'
    cases hb'
  refine ⟨rfl, le_antisymm hge hle, List.all_eq_true.mpr fun c hc => ?_, rfl⟩
  obtain ⟨k, hk, rfl⟩ := List.getElem_of_mem hc
  have hpk := hall (a.length + k) (by omega) (by omega)
  rwa [hget hk] at hpk

theorem moves_of_word (ha : ∀ c ∈ a.getLast?, word c = false) (hn : 0 < n) (hlen : w.length = n) (hall : w.all p = true) :
    Moves (a ++ (w ++ y)) (whole word p n) a.length (a.length + n) := by
  have hget {k : Nat} (hk : k < w.length) : (a ++ (w ++ y))[a.length + k]? = some w[k] := by
    rw [List.getElem?_append_right (by omega), Nat.add_sub_cancel_left, List.getElem?_append_left hk, List.getElem?_eq_getElem hk]
  have hword {k : Nat} (hk : k < w.length) : ((a ++ (w ++ y))[a.length + k]?).any word = true := by
    rw [hget hk]
    exact List.all_eq_true.mp hw _ (List.getElem_mem _)
  refine moves_whole.mpr ⟨?_, fun k hk hk' => ?_, ?_, rfl⟩
  · have hfirst := hword (k := 0) (by omega)
    rw [Nat.add_zero] at hfirst
    have hbefore : (decide (0 < a.length) && ((a ++ (w ++ y))[a.length - 1]?).any word) = false := by
      cases hlast : a.getLast? with
      | none =>
        rw [List.getLast?_eq_none_iff.mp hlast]
        rfl
      | some c =>
        have hne : a ≠ [] := by
          rintro rfl
          cases hlast
        have hpos := List.length_pos_iff.mpr hne
        rw [List.getElem?_append_left (by omega), ← List.getLast?_eq_getElem?, hlast]
        simp [ha c hlast]
    rw [atBoundary, hbefore, hfirst]
    rfl
  · obtain ⟨k, rfl⟩ := Nat.exists_eq_add_of_le hk
    rw [hget (by omega)]
    exact List.all_eq_true.mp hall _ (List.getElem_mem _)
  · have hlast := hword (k := n - 1) (by omega)
    rw [show a.length + (n - 1) = a.length + n - 1 by omega] at hlast
    have hafter : ((a ++ (w ++ y))[a.length + n]?).any word = false := by
      rw [List.getElem?_append_right (by omega), Nat.add_sub_cancel_left, List.getElem?_append_right hlen.le, hlen, Nat.sub_self,
        ← List.head?_eq_getElem?]
      cases hhead : y.head? with
      | none => rfl
      | some c => exact hy c hhead
    rw [atBoundary, hlast, hafter, decide_eq_true (show 0 < a.length + n by omega)]
    rfl

end

variable [DecidableEq α]

def texts (t : List α) (ms : List (Nat × State)) : List (List α) := ms.map fun m => slice t m.1 m.2.pos

theorem texts_whole (hp : ∀ c, p c = true → word c = true) (hn : 0 < n) (a x : List α) (ha : ∀ c ∈ a.getLast?, word c = false) :
    texts (a ++ x) (occurrences (matchAt (a ++ x) (whole word p n)) State.pos (a ++ x).length a.length) =
      (words word x).filter fun w => w.length = n && w.all p := by
  obtain ⟨w, hwx⟩ : ∃ w, w = x.takeWhile word := ⟨_, rfl⟩
  obtain ⟨y, hyx⟩ : ∃ y, y = x.dropWhile word := ⟨_, rfl⟩
  have hx : x = w ++ y := by rw [hwx, hyx, List.takeWhile_append_dropWhile]
  have hw : w.all word = true := by
    rw [hwx]
    exact List.all_takeWhile
  have hy : ∀ c ∈ y.head?, word c = false := by
    intro c hc
    have := List.head?_dropWhile_not word x
    rw [← hyx, hc] at this
    simpa using this
  have hnone {j : Nat} (hj : a.length ≤ j) (hj' : j ≤ a.length + w.length) (hno : ¬(j = a.length ∧ w.length = n ∧ w.all p = true)) :
      matchAt (a ++ x) (whole word p n) j = none := by
    rw [hx]
    refine matchAt_eq_none plain_whole (by simp; omega) fun e he => hno ?_
    obtain ⟨h1, h2, h3, -⟩ := moves_whole_word hw hy hp hn he hj hj'
    exact ⟨h1, h2, h3⟩
  -- what stands behind the word
  have hrest : texts (a ++ x) (occurrences (matchAt (a ++ x) (whole word p n)) State.pos (a ++ x).length (a.length + w.length)) =
      ((words word x).tail).filter fun w => w.length = n && w.all p := by
    cases hyc : y with
    | nil =>
      rw [hyc, List.append_nil] at hx
      rw [occurrences_none fun j hj hj' => ?_]
      · rw [hx, words_word hw]
        rfl
      · have hlen : (a ++ x).length = a.length + w.length := by rw [hx, List.length_append]
        exact hnone (by omega) (by omega) (by omega)
    | cons c z =>
      rw [hyc] at hx
      have hc : word c = false := hy c (by rw [hyc]; rfl)
      have ih := texts_whole hp hn (a ++ (w ++ [c])) z (by simp [hc])
      have hsplit : a ++ x = a ++ (w ++ [c]) ++ z := by rw [hx]; simp
      have hlen : (a ++ (w ++ [c])).length = a.length + w.length + 1 := by simp; omega
      rw [← hsplit, hlen] at ih
      rw [occurrences_skip (k := a.length + w.length + 1) (by omega) fun j hj hj' => ?_, ih, hx, words_append hc, words_word hw]
      · rfl
      · exact hnone (by omega) (by omega) (by omega)
  have hwords : words word x = w :: (words word x).tail := by
    cases hyc : y with
    | nil => rw [hx, hyc, List.append_nil, words_word hw]; rfl
    | cons c z => rw [hx, hyc, words_append (hy c (by rw [hyc]; rfl)), words_word hw]; rfl
  rw [hwords, List.filter_cons]
  split
  next hmatch =>
    obtain ⟨hlen, hall⟩ := Bool.and_eq_true_iff.mp hmatch
    obtain rfl := of_decide_eq_true hlen
    have hat : matchAt (a ++ x) (whole word p w.length) a.length = some (start (a.length + w.length)) := by
      rw [hx]
      refine matchAt_eq_some plain_whole (by simp) (moves_of_word hw hy ha hn rfl hall) fun j' hj' => ?_
      exact (moves_whole_word hw hy hp hn hj' le_rfl (by omega)).2.2.2
    have hlong : a.length < (start (a.length + w.length)).pos := by
      rw [pos_start]
      omega
    rw [occurrences_found le_rfl (fun j hj hj' => by omega) (by rw [List.length_append]; omega) hat hlong, pos_start]
    refine List.cons_eq_cons.mpr ⟨?_, hrest⟩
    show slice (a ++ x) a.length (a.length + w.length) = w
    rw [slice, hx, List.drop_left, Nat.add_sub_cancel_left, List.take_left]
  next hmatch =>
    rw [occurrences_skip (k := a.length + w.length) (by omega) fun j hj hj' => ?_]
    · exact hrest
    · refine hnone hj hj'.le ?_
      rintro ⟨-, hlen, hall⟩
      exact hmatch (by simp [hlen, hall])
termination_by x.length
decreasing_by
  have hlen := congrArg List.length hyc
  rw [List.length_cons] at hlen
  rw [hx, List.length_append]
  omega

/-- `\b[p]{n}\b` finds the words of `n` characters of class `p`. -/
theorem matches_whole (hp : ∀ c, p c = true → word c = true) (hn : 0 < n) :
    texts t ((whole word p n).allMatches t) = (words word t).filter fun w => w.length = n && w.all p :=
  texts_whole hp hn [] t (by simp)

end Regex
